import Noddde.Proofs.Settlement
/-!
# The steps of a dispatch that owns its units of work

The attempts of a dispatch, one after another or under its lock, and the publishing
of the one that committed.
-/

namespace Noddde

open Async

variable {J Infra : Type} (wiring : Wiring J Infra)

/-- A program that serves `x` alone. -/
def Only (x y : Subject) : Prop := y = x

theorem only_self (x : Subject) : Only x x := rfl

section Rules

variable [JsValue J] {α : Type} {X : Subject → Prop} {i : Tid} {s : World J}

/-- What the history says stays true. -/
theorem keeping {Q : α → World J → Prop} {E : Err → World J → Prop} {p : Eff J Infra α}
    {I : World J → Prop} (h : Safe (protocol wiring X) i Q E p s) (hI : I s)
    (hmono : ∀ t v, t.history <:+ v.history → I t → I v) :
    Safe (protocol wiring X) i (fun a t => Q a t ∧ I t) (fun e t => E e t ∧ I t) p s :=
  narrow wiring h (fun _ h => h) hI (fun _ t v _ _ hstep => hmono t v hstep.adds.grows)
    fun t v hv => hmono t v hv.grows

/-- The retry loop: `I k` holds before the `k`-th attempt. -/
theorem retryOnConflict_safe {I : Nat → World J → Prop} {Q : α → World J → Prop}
    {E : World J → Prop} {attempt : Nat → Eff J Infra α}
    (hattempt : ∀ k t, Inv wiring t → I k t →
      Safe (protocol wiring X) i Q (fun _ t => I (k + 1) t ∧ E t) (attempt k) t)
    (hE : ∀ t v, Respects i t v → E t → E v)
    (retries k : Nat) (hs : Inv wiring s) (hI : I k s) :
    Safe (protocol wiring X) i Q (fun _ => E) (retryOnConflict attempt retries k) s := by
  induction retries generalizing k s with
  | zero => exact (hattempt k s hs hI).mono (fun _ _ _ h => h) fun _ _ _ h => h.2
  | succ retries ih =>
      refine Safe.tryCatch hs ((hattempt k s hs hI).mono (fun _ _ _ h => h) ?_)
      rintro e t ht ⟨hI', he⟩
      split
      · exact ih (k + 1) ht hI'
      · exact Safe.throw fun v _ htv => hE t v htv he

end Rules

/-! ## The attempts of a dispatch -/

section Owned

theorem Locker.release_spec (ticket : Ticket) (aggregateName : String) (aggregateId : ID)
    (s : World J) :
    (Locker.release ticket aggregateName aggregateId s).1 = .ok () ∧
      .released ticket (compositeKey aggregateName aggregateId) ∈
        (Locker.release ticket aggregateName aggregateId s).2.history ∧
      ∀ ticket' key, .acquireCalled ticket' key ∈
        (Locker.release ticket aggregateName aggregateId s).2.history →
          .acquireCalled ticket' key ∈ s.history := by
  unfold Locker.release
  dsimp only
  split
  · exact ⟨rfl, List.mem_cons_self, by simp [World.note]⟩
  · split
    · exact ⟨rfl, List.mem_cons_of_mem _ List.mem_cons_self,
        by simp [World.note, World.setLock]⟩
    · exact ⟨rfl, List.mem_cons_self, by simp [World.note, World.setLock]⟩

/-- The `k`-th attempt of `task` is the current one; `locks` is all that the dispatch
knows of its lock. -/
structure Trying (task : Task J) (k : Nat) (locks : List (Obs J)) (w : World J) : Prop where
  failed : ∀ j < k, (w.uows (.attempt task.dispatch j)).outcome = some false
  later : ∀ j, k < j → w.uows (.attempt task.dispatch j) = {}
  unsettled : ∀ e, .settled task.dispatch e ∉ w.history
  started : .started task none ∈ w.history
  locks : about (.lock task.dispatch) w.history = locks

variable {X : Subject → Prop} {i : Tid} {s t : World J} {task : Task J} {k : Nat}
  {locks : List (Obs J)}

theorem Trying.of_respects (h : Trying task k locks s) (hi : task.dispatch.tid = i)
    (hst : Respects i s t) : Trying task k locks t where
  failed j hj := by rw [(hst.stays (.attempt task.dispatch j) hi).outcome, h.failed j hj]
  later j hj := by rw [(hst.stays (.attempt task.dispatch j) hi).implicit rfl, h.later j hj]
  unsettled e := hst.notMem (x := .call task.dispatch) hi rfl (h.unsettled e)
  started := hst.mem h.started
  locks := by rw [hst.about (.lock task.dispatch) hi, h.locks]

/-- Steps for the current attempt or for the lock leave the other attempts alone. -/
theorem Trying.step [JsValue J] {x : Subject} (h : Trying task k locks s)
    (hstep : Step wiring x s t) (hcall : x ≠ .call task.dispatch)
    (hunit : ∀ j ≠ k, x ≠ .unit (.attempt task.dispatch j)) :
    Trying task k (about (.lock task.dispatch) t.history) t where
  failed j hj := by rw [(hstep.stays (hunit j hj.ne)).outcome, h.failed j hj]
  later j hj := by rw [(hstep.stays (hunit j hj.ne')).implicit rfl, h.later j hj]
  unsettled e := by
    have hunsettled := h.unsettled e
    rw [← mem_about (x := .call task.dispatch) rfl] at hunsettled ⊢
    rwa [hstep.adds.about hcall.symm]
  started := hstep.adds.grows.subset h.started
  locks := rfl

theorem Trying.step_unit [JsValue J] (h : Trying task k locks s)
    (hstep : Step wiring (.unit (.attempt task.dispatch k)) s t) :
    Trying task k locks t := by
  have htrying := h.step wiring hstep (by simp) fun j hj => by simpa using hj.symm
  rwa [hstep.adds.about (by simp), h.locks] at htrying

theorem Trying.step_lock [JsValue J] (h : Trying task k locks s)
    (hstep : Step wiring (.lock task.dispatch) s t) :
    Trying task k (about (.lock task.dispatch) t.history) t :=
  h.step wiring hstep (by simp) fun _ _ => by simp

theorem Trying.ready (h : Trying task k locks s)
    (hunused : s.uows (.attempt task.dispatch k) = {}) : Ready task.dispatch k s where
  failed := h.failed
  unused j hj := by
    rcases hj.eq_or_lt with rfl | hj
    · exact hunused
    · exact h.later j hj
  unsettled := h.unsettled

theorem Ready.ended {d : Origin} (h : Ready d k s) : Over d s := by
  intro j hcreated
  rcases lt_or_ge j k with hj | hj
  · simp [h.failed j hj]
  · simp [h.unused j hj] at hcreated

theorem Trying.ended (h : Trying task k locks s)
    (hdone : (s.uows (.attempt task.dispatch k)).outcome ≠ none) : Over task.dispatch s := by
  intro j hcreated
  rcases lt_trichotomy j k with hj | rfl | hj
  · simp [h.failed j hj]
  · exact hdone
  · simp [h.later j hj] at hcreated

theorem Trying.next (h : Trying task k locks s)
    (hfailed : (s.uows (.attempt task.dispatch k)).outcome = some false) :
    Trying task (k + 1) locks s ∧ s.uows (.attempt task.dispatch (k + 1)) = {} := by
  refine ⟨{ h with failed := fun j hj => ?_, later := fun j hj => h.later j (by omega) },
    h.later (k + 1) (Nat.lt_succ_self k)⟩
  rcases (Nat.lt_succ_iff.mp hj).eq_or_lt with rfl | hj
  · exact hfailed
  · exact h.failed j hj

/-- What an attempt hands on: its unit of work, the committed events and the snapshot
that its lifecycle has asked for. -/
structure AttemptDone (task : Task J) (k : Nat)
    (r : UowRef × List (Event J) × Option (PendingSnapshot J)) (w : World J) : Prop where
  uow : r.1 = .attempt task.dispatch k
  unpublished : Unpublished r.1 r.2.1 w
  asked : ∀ pending ∈ r.2.2, Pending wiring task r.1 pending w.history

variable [JsValue J] {ambient : Ambient} {persistence : PersistenceKind}

theorem attempt_safe (hX : X (.unit (.attempt task.dispatch k)))
    (hi : task.dispatch.tid = i)
    (hpersistence : wiring.persistence task.aggregateName = some persistence)
    (hs : Inv wiring s) (htrying : Trying task k locks s)
    (hunused : s.uows (.attempt task.dispatch k) = {})
    (hguarded : Guarded wiring task (.attempt task.dispatch k) s.history) :
    Safe (protocol wiring X) i
      (fun r t => AttemptDone wiring task k r t ∧ Trying task k locks t)
      (fun _ t => (t.uows (.attempt task.dispatch k)).outcome = some false ∧
        Trying task k locks t)
      (attempt wiring task ambient persistence k) s := by
  have howner : (UowRef.attempt task.dispatch k).owner = i := hi
  refine narrow wiring (Y := Only (.unit (.attempt task.dispatch k))) ?_
    (by rintro _ rfl; exact hX) htrying
    (by rintro _ t v rfl - hstep h; exact h.step_unit wiring hstep)
    fun t v htv h => h.of_respects hi htv
  -- every failure ends in a rollback
  have hfail : ∀ (e : Err) t, Inv wiring t →
      (t.uows (.attempt task.dispatch k)).outcome = some false ∨
        (t.uows (.attempt task.dispatch k)).completed = false →
      Safe (protocol wiring (Only (.unit (.attempt task.dispatch k)))) i
        (AttemptDone wiring task k)
        (fun _ t => (t.uows (.attempt task.dispatch k)).outcome = some false)
        ((tryRollback wiring (.attempt task.dispatch k)).bind fun _ => .throw e) t := by
    intro e t ht hgiveUp
    refine Safe.bind ht ((tryRollback_safe' wiring (only_self _) howner ht ?_).mono ?_
      fun _ _ _ h => h)
    · exact hgiveUp.imp id fun h => ⟨h, by simp [UowRef.implicit]⟩
    · rintro _ v - ⟨hfailed, -⟩
      refine Safe.throw fun x _ hx => ?_
      rwa [(hx.stays _ howner).outcome]
  refine Safe.bind hs (Safe.call fun t ht hst _ => ?_)
  have htryingt := htrying.of_respects hi hst
  have hunusedt : t.uows (.attempt task.dispatch k) = {} := by
    rw [(hst.stays _ howner).implicit rfl, hunused]
  have hguardedt := hguarded.mono wiring hst.grows.subset (hst.about _ hi) (hst.about _ hi)
  simp only [createUow, Segment.wp_modify]
  refine allows wiring (only_self _) howner ht (.created
    ⟨htryingt.ready hunusedt, task, rfl, htryingt.started, hguardedt⟩) fun v hv htv => ?_
  have hp : Proceeds wiring task (.attempt task.dispatch k) v := by
    refine Proceeds.of_respects (s := t.setUow (.attempt task.dispatch k) fun uow =>
      { uow with created := true }) ⟨⟨htryingt.started, fun _ => ⟨k, rfl⟩⟩, hguardedt,
      htryingt.unsettled, fun _ => ?_, by simp [UowRef.implicit], by simp [UowRef.implicit], fun _ => ?_⟩ hi htv
    · simp [World.uows_setUow_self, hunusedt]
    · rw [World.uows_setUow_self]
  refine Safe.tryCatch hv (Safe.bind hv ((executeLifecycle_safe wiring
    (only_self (.unit (.attempt task.dispatch k))) hi hpersistence hv hp).mono ?_ ?_))
  · intro snapshotResult x hx hcontributed
    obtain ⟨hops, hopen⟩ := hcontributed.isOpen rfl
    refine Safe.bind hx ((keeping wiring
      (I := fun t => ∀ pending ∈ snapshotResult,
        Pending wiring task (.attempt task.dispatch k) pending t.history)
      (commit_safe' wiring (only_self _) howner hx hopen (fun _ => hops) (by simp [UowRef.implicit]))
      hcontributed.asked
      fun t v htv h pending hp => (h pending hp).mono htv.subset).mono ?_ ?_)
    · rintro events y _ ⟨⟨hunpublished, -⟩, hasked⟩
      exact Safe.pure fun z _ hyz => ⟨rfl, hunpublished.of_respects howner hyz,
        fun pending hp => (hasked pending hp).mono hyz.grows.subset⟩
    · rintro e y hy ⟨⟨⟨hfailed, -⟩, -⟩, -⟩
      exact hfail e y hy (.inl hfailed)
  · exact fun e x hx hfailed => hfail e x hx (.inr (hfailed.isOpen rfl))

/-! ## The lock around an attempt -/

omit [JsValue J] in
theorem LockDone.mono {uow : Option UowRef} {h h' : List (Obs J)}
    (hdone : LockDone wiring task uow h) (hsub : h ⊆ h')
    (hlock : about (.lock task.dispatch) h' = about (.lock task.dispatch) h) :
    LockDone wiring task uow h' := by
  intro key hcalled
  rw [← mem_about (x := .lock task.dispatch) rfl, hlock, mem_about rfl] at hcalled
  obtain ⟨hkey, hlock⟩ := hdone key hcalled
  refine ⟨hkey, hlock.imp (fun h => hsub h) fun ⟨hgranted, hback⟩ => ⟨?_, ?_⟩⟩
  · exact hgranted.imp (fun h => hsub h) fun h => hsub h
  · cases uow with
    | none => exact hback.imp (fun h => hsub h) id
    | some u => exact hsub hback

omit [JsValue J] in
/-- A dispatch that has not asked for a lock has none to give back. -/
theorem LockDone.of_nil {uow : Option UowRef} {h : List (Obs J)}
    (hlock : about (.lock task.dispatch) h = []) : LockDone wiring task uow h := by
  intro key hcalled
  rw [← mem_about (x := .lock task.dispatch) rfl, hlock] at hcalled
  simp at hcalled

omit [JsValue J] in
theorem Asked.key_eq {ticket : Ticket} {key key' : String} (h : Asked ticket key s)
    (hcalled : .acquireCalled ticket key' ∈ s.history) : key' = key := by
  rw [← mem_about (x := .lock ticket.dispatch) rfl] at hcalled
  rcases h _ hcalled with h | h | h
  · simpa using h
  · simp at h
  · simp at h

omit [JsValue J] in
/-- What is known once the dispatch asked for its lock in vain. -/
theorem Asked.lockDone_of_timedOut {uow : Option UowRef}
    (h : Asked ⟨task.dispatch, uow⟩ task.key s)
    (htimedOut : .lockTimedOut ⟨task.dispatch, uow⟩ task.key ∈ s.history) :
    LockDone wiring task uow s.history := by
  intro key hcalled
  obtain rfl := h.key_eq hcalled
  exact ⟨rfl, .inl htimedOut⟩

theorem release_safe {Q : World J → Prop} (hX : X (.lock task.dispatch))
    (hi : task.dispatch.tid = i) (hstarted : .started task none ∈ s.history)
    (hgranted : Granted ⟨task.dispatch, none⟩ task.key s.history)
    (hasked : Asked ⟨task.dispatch, none⟩ task.key s) (hover : Over task.dispatch s)
    (hQ : Q s) (hstep : ∀ t v, Step wiring (.lock task.dispatch) t v → Q t → Q v)
    (hrely : ∀ t v, Respects i t v → Q t → Q v) :
    Safe (protocol wiring X) i (fun _ t => Q t ∧ LockDone wiring task none t.history)
      (fun _ t => Q t ∧ LockDone wiring task none t.history)
      (Async.call fun c : Choice Infra =>
        match Locker.releaseRejects wiring c with
        | some error => .raise error
        | none => Locker.release ⟨task.dispatch, none⟩ task.aggregateName
            task.aggregateId : Eff J Infra Unit) s := by
  refine Safe.call fun t ht hst c => ?_
  have hgrantedt := hgranted.imp (fun h => hst.mem h) fun h => hst.mem h
  have haskedt := hasked.of_respects hi hst
  cases hrejects : Locker.releaseRejects wiring c with
  | some error =>
      refine allows_idle wiring hX hi ht fun v _ hv => ⟨hrely t v hv (hrely s t hst hQ), ?_⟩
      refine LockDone.mono wiring (fun key hcalled => ?_) hv.grows.subset
        (hv.about (.lock task.dispatch) hi)
      obtain rfl := haskedt.key_eq hcalled
      refine ⟨rfl, .inr ⟨hgrantedt, .inr ?_⟩⟩
      by_contra hmay
      simp [Locker.releaseRejects, hmay] at hrejects
  | none =>
      have hfirst : .released ⟨task.dispatch, none⟩ task.key ∉ t.history := by
        rw [← mem_about (x := .lock task.dispatch) rfl]
        intro hmem
        simpa using haskedt _ hmem
      have hreleased : Step wiring (.lock task.dispatch) t _ :=
        .released (hst.mem hstarted) hgrantedt hfirst (hst.ended hi hover)
      obtain ⟨hok, hmem, hcalls⟩ := Locker.release_spec ⟨task.dispatch, none⟩
        task.aggregateName task.aggregateId t
      simp only [Segment.wp, hok]
      refine allows wiring hX hi ht hreleased fun v _ hv =>
        ⟨hrely _ v hv (hstep _ _ hreleased (hrely s t hst hQ)), ?_⟩
      refine LockDone.mono wiring (fun key hcalled => ?_) hv.grows.subset
        (hv.about (.lock task.dispatch) hi)
      obtain rfl := haskedt.key_eq (hcalls _ _ hcalled)
      exact ⟨rfl, .inr ⟨hgrantedt.imp (fun h => hreleased.adds.grows.subset h)
        fun h => hreleased.adds.grows.subset h, .inl hmem⟩⟩

/-! ## The dispatch that owns its units of work -/

/-- The attempts of `task` are over, and its lock is on its way back. -/
structure Tried (task : Task J) (k : Nat) (w : World J) : Prop where
  trying : ∃ locks, Trying task k locks w
  outcome : (w.uows (.attempt task.dispatch k)).outcome ≠ none
  lockDone : LockDone wiring task none w.history

section Assertions

omit [JsValue J]

variable {wiring}
variable {r : UowRef × List (Event J) × Option (PendingSnapshot J)}

theorem AttemptDone.of_respects (h : AttemptDone wiring task k r s)
    (hi : task.dispatch.tid = i) (hst : Respects i s t) : AttemptDone wiring task k r t where
  uow := h.uow
  unpublished := h.unpublished.of_respects (by rw [h.uow]; exact hi) hst
  asked pending hp := (h.asked pending hp).mono hst.grows.subset

theorem AttemptDone.step_lock [JsValue J] (h : AttemptDone wiring task k r s)
    (hstep : Step wiring (.lock task.dispatch) s t) : AttemptDone wiring task k r t where
  uow := h.uow
  unpublished :=
    { outcome := by rw [(hstep.stays (by simp)).outcome, h.unpublished.outcome]
      committed := hstep.adds.grows.subset h.unpublished.committed
      quiet := by
        rw [hstep.adds.about (by simp)]
        exact h.unpublished.quiet }
  asked pending hp := (h.asked pending hp).mono hstep.adds.grows.subset

theorem AttemptDone.outcome (h : AttemptDone wiring task k r s) :
    (s.uows (.attempt task.dispatch k)).outcome = some true := by
  rw [← h.uow, h.unpublished.outcome]

theorem Tried.of_respects (h : Tried wiring task k s) (hi : task.dispatch.tid = i)
    (hst : Respects i s t) : Tried wiring task k t where
  trying := h.trying.imp fun _ htrying => htrying.of_respects hi hst
  outcome := by
    rw [(hst.stays (.attempt task.dispatch k) hi).outcome]
    exact h.outcome
  lockDone := h.lockDone.mono wiring hst.grows.subset (hst.about _ hi)

theorem Tried.ended (h : Tried wiring task k s) : Over task.dispatch s := by
  obtain ⟨_, htrying⟩ := h.trying
  exact htrying.ended h.outcome

end Assertions

theorem holdingLock_safe {timeoutMs : Option Nat}
    (hX : ∀ k, X (.unit (.attempt task.dispatch k))) (hXlock : X (.lock task.dispatch))
    (hi : task.dispatch.tid = i)
    (hpersistence : wiring.persistence task.aggregateName = some persistence)
    (hpessimistic : wiring.concurrency.resolve task.aggregateName = .pessimistic timeoutMs)
    (hs : Inv wiring s) (htrying : Trying task 0 [] s)
    (hunused : s.uows (.attempt task.dispatch 0) = {}) :
    Safe (protocol wiring X) i
      (fun r t => ∃ k, AttemptDone wiring task k r t ∧ Tried wiring task k t)
      (fun _ t => Over task.dispatch t ∧ (∃ k locks, Trying task k locks t) ∧
        LockDone wiring task none t.history)
      (holdingLock wiring ⟨task.dispatch, none⟩ task.aggregateName task.aggregateId timeoutMs
        (attempt wiring task ambient persistence 0)) s := by
  let I (t : World J) : Prop :=
    (∃ locks, Trying task 0 locks t) ∧ t.uows (.attempt task.dispatch 0) = {}
  refine Safe.bind hs ((narrow wiring (I := I) (acquire_safe wiring
    (X := Only (.lock task.dispatch)) (only_self _) hi hs htrying.started hpessimistic
    htrying.locks htrying.unsettled) ?_ ⟨⟨_, htrying⟩, hunused⟩ ?_ ?_).mono ?_ ?_)
  · rintro _ rfl
    exact hXlock
  · rintro _ t v rfl - hstep ⟨⟨_, h⟩, hunused⟩
    refine ⟨⟨_, h.step_lock wiring hstep⟩, ?_⟩
    rw [(hstep.stays (by simp)).implicit rfl, hunused]
  · rintro t v htv ⟨⟨_, h⟩, hunused⟩
    refine ⟨⟨_, h.of_respects hi htv⟩, ?_⟩
    rw [(htv.stays (.attempt task.dispatch 0) hi).implicit rfl, hunused]
  · rintro _ t ht ⟨⟨hgranted, hasked⟩, ⟨locks, htrying⟩, hunused⟩
    have hguarded : Guarded wiring task (.attempt task.dispatch 0) t.history := by
      refine fun _ _ => ⟨hgranted, htrying.unsettled, ?_⟩
      change .released _ _ ∉ t.history
      rw [← mem_about (x := .lock task.dispatch) rfl]
      intro hmem
      simpa using hasked _ hmem
    have hasked' : ∀ {v}, Trying task 0 locks v → Asked ⟨task.dispatch, none⟩ task.key v := by
      intro v hv o ho
      refine hasked o ?_
      rwa [htrying.locks, ← hv.locks]
    -- the lock is given back after the attempt, however it ends
    have hrelease : ∀ {Q : World J → Prop} {v}, Inv wiring v → Trying task 0 locks v →
        (v.uows (.attempt task.dispatch 0)).outcome ≠ none →
        Granted ⟨task.dispatch, none⟩ task.key v.history → Q v →
        (∀ t v, Step wiring (.lock task.dispatch) t v → Q t → Q v) →
        (∀ t v, Respects i t v → Q t → Q v) →
        Safe (protocol wiring X) i (fun _ t => Q t ∧ Tried wiring task 0 t)
          (fun _ t => Q t ∧ Tried wiring task 0 t)
          (Async.call fun c : Choice Infra =>
            match Locker.releaseRejects wiring c with
            | some error => .raise error
            | none => Locker.release ⟨task.dispatch, none⟩ task.aggregateName
                task.aggregateId : Eff J Infra Unit) v := by
      intro Q v hv htryingv houtcome hgrantedv hQ hstep hrely
      refine (release_safe wiring (Q := fun t => Q t ∧ (∃ locks, Trying task 0 locks t) ∧
        (t.uows (.attempt task.dispatch 0)).outcome ≠ none) hXlock hi htryingv.started
        hgrantedv (hasked' htryingv) (htryingv.ended houtcome) ⟨hQ, ⟨_, htryingv⟩, houtcome⟩
        ?_ ?_).mono (fun _ _ _ h => ⟨h.1.1, h.1.2.1, h.1.2.2, h.2⟩)
        fun _ _ _ h => ⟨h.1.1, h.1.2.1, h.1.2.2, h.2⟩
      · rintro t v htv ⟨hQ, ⟨_, htrying⟩, houtcome⟩
        refine ⟨hstep t v htv hQ, ⟨_, htrying.step_lock wiring htv⟩, ?_⟩
        rwa [(htv.stays (by simp)).outcome]
      · rintro t v htv ⟨hQ, ⟨_, htrying⟩, houtcome⟩
        refine ⟨hrely t v htv hQ, ⟨_, htrying.of_respects hi htv⟩, ?_⟩
        rwa [(htv.stays (.attempt task.dispatch 0) hi).outcome]
    refine Safe.tryFinally ht ((keeping wiring
      (I := fun v : World J => Granted ⟨task.dispatch, none⟩ task.key v.history)
      (attempt_safe wiring (hX 0) hi hpersistence ht htrying hunused hguarded) hgranted
      fun v x hvx h => h.imp (fun h => hvx.subset h) fun h => hvx.subset h).mono ?_ ?_)
    · rintro r v hv ⟨⟨hdone, htryingv⟩, hgrantedv⟩
      refine (hrelease hv htryingv (by simp [hdone.outcome]) hgrantedv hdone
        (fun _ _ hstep h => h.step_lock hstep) fun _ _ h hd => hd.of_respects hi h).mono ?_ ?_
      · exact fun _ x _ h => ⟨0, h⟩
      · exact fun _ x _ h => ⟨h.2.ended, ⟨0, h.2.trying⟩, h.2.lockDone⟩
    · rintro e v hv ⟨⟨hfailed, htryingv⟩, hgrantedv⟩
      refine (hrelease (Q := fun _ => True) hv htryingv (by simp [hfailed]) hgrantedv trivial
        (fun _ _ _ h => h) fun _ _ _ h => h).mono ?_ ?_
      · exact fun _ x _ h => ⟨h.2.ended, ⟨0, h.2.trying⟩, h.2.lockDone⟩
      · exact fun _ x _ h => ⟨h.2.ended, ⟨0, h.2.trying⟩, h.2.lockDone⟩
  · rintro _ t - ⟨⟨htimedOut, hasked⟩, ⟨locks, htrying⟩, hunused⟩
    refine ⟨(htrying.ready hunused).ended, ⟨0, locks, htrying⟩, ?_⟩
    exact hasked.lockDone_of_timedOut wiring htimedOut

theorem execute_safe (hX : ∀ k, X (.unit (.attempt task.dispatch k)))
    (hXlock : X (.lock task.dispatch)) (hi : task.dispatch.tid = i)
    (hpersistence : wiring.persistence task.aggregateName = some persistence)
    (hs : Inv wiring s) (htrying : Trying task 0 [] s)
    (hunused : s.uows (.attempt task.dispatch 0) = {}) :
    Safe (protocol wiring X) i
      (fun r t => ∃ k, AttemptDone wiring task k r t ∧ Tried wiring task k t)
      (fun _ t => Over task.dispatch t ∧ (∃ k locks, Trying task k locks t) ∧
        LockDone wiring task none t.history)
      (wiring.concurrency.execute wiring ⟨task.dispatch, none⟩ task.aggregateName
        task.aggregateId (attempt wiring task ambient persistence)) s := by
  unfold ConcurrencyStrategy.execute
  cases hstrategy : wiring.concurrency.resolve task.aggregateName with
  | optimistic maxRetries =>
      refine retryOnConflict_safe wiring (I := fun k t => Trying task k [] t ∧
        t.uows (.attempt task.dispatch k) = {}) (fun k t ht hI => ?_) (fun t v htv h => ?_)
        maxRetries 0 hs ⟨htrying, hunused⟩
      · refine (attempt_safe wiring (hX k) hi hpersistence ht hI.1 hI.2
          fun timeoutMs hpessimistic => by simp [hstrategy] at hpessimistic).mono ?_ ?_
        · rintro r v - ⟨hdone, htrying⟩
          exact ⟨k, hdone, ⟨_, htrying⟩, by simp [hdone.outcome], .of_nil wiring htrying.locks⟩
        · rintro e v - ⟨hfailed, htrying⟩
          exact ⟨htrying.next hfailed, htrying.ended (by simp [hfailed]), ⟨k, _, htrying⟩,
            .of_nil wiring htrying.locks⟩
      · obtain ⟨hover, ⟨k, locks, htrying⟩, hdone⟩ := h
        exact ⟨htv.ended hi hover, ⟨k, locks, htrying.of_respects hi htv⟩,
          hdone.mono wiring htv.grows.subset (htv.about _ hi)⟩
  | pessimistic timeoutMs =>
      exact holdingLock_safe wiring hX hXlock hi hpersistence hstrategy hs htrying hunused

/-- A dispatch has started and not settled, and none of its attempts is under way. -/
structure Underway (task : Task J) (uow : Option UowRef) (w : World J) : Prop where
  ended : Over task.dispatch w
  unsettled : ∀ e, .settled task.dispatch e ∉ w.history
  started : .started task uow ∈ w.history

/-- A dispatch is done with its units of work and with its lock. -/
structure Concluded (task : Task J) (uow : Option UowRef) (w : World J) : Prop
    extends Underway task uow w where
  lockDone : LockDone wiring task uow w.history

omit [JsValue J] in
theorem Underway.of_respects {uow : Option UowRef} (h : Underway task uow s)
    (hi : task.dispatch.tid = i) (hst : Respects i s t) : Underway task uow t where
  ended := hst.ended hi h.ended
  unsettled e := hst.notMem (x := .call task.dispatch) hi rfl (h.unsettled e)
  started := hst.mem h.started

theorem Underway.step {uow : Option UowRef} {x : Subject} (h : Underway task uow s)
    (hstep : Step wiring x s t) (hcall : x ≠ .call task.dispatch)
    (hunit : ∀ j, x ≠ .unit (.attempt task.dispatch j)) : Underway task uow t where
  ended k := by
    rw [(hstep.stays (hunit k)).created, (hstep.stays (hunit k)).outcome]
    exact h.ended k
  unsettled e := by
    have hunsettled := h.unsettled e
    rw [← mem_about (x := .call task.dispatch) rfl] at hunsettled ⊢
    rwa [hstep.adds.about hcall.symm]
  started := hstep.adds.grows.subset h.started

omit [JsValue J] in
theorem Concluded.of_respects {uow : Option UowRef} (h : Concluded wiring task uow s)
    (hi : task.dispatch.tid = i) (hst : Respects i s t) : Concluded wiring task uow t where
  toUnderway := h.toUnderway.of_respects hi hst
  lockDone := h.lockDone.mono wiring hst.grows.subset (hst.about _ hi)

omit [JsValue J] in
theorem Tried.concluded (h : Tried wiring task k s) : Concluded wiring task none s := by
  obtain ⟨_, htrying⟩ := h.trying
  exact ⟨⟨h.ended, htrying.unsettled, htrying.started⟩, h.lockDone⟩

theorem Tried.step_unit (h : Tried wiring task k s) (hs : Inv wiring s)
    (hstep : Step wiring (.unit (.attempt task.dispatch k)) s t) : Tried wiring task k t where
  trying := h.trying.imp fun _ htrying => htrying.step_unit wiring hstep
  outcome := by
    obtain ⟨b, hb⟩ := Option.ne_none_iff_exists'.mp h.outcome
    simp [(hstep.uow _).outcome (hs.units _) hb]
  lockDone := h.lockDone.mono wiring hstep.adds.grows.subset (hstep.adds.about (by simp))

theorem saveSnapshot_safe {E : Err → World J → Prop}
    {r : UowRef × List (Event J) × Option (PendingSnapshot J)}
    (hX : X (.unit (.attempt task.dispatch k))) (hi : task.dispatch.tid = i)
    (h : AttemptDone wiring task k r s) :
    Safe (protocol wiring X) i (fun _ => AttemptDone wiring task k r) E
      (saveSnapshot r.2.2 : Eff J Infra Unit) s := by
  have howner : (UowRef.attempt task.dispatch k).owner = i := hi
  unfold saveSnapshot
  split
  · exact Safe.pure fun t _ hst => h.of_respects hi hst
  · rename_i pending hpending
    refine Safe.call fun t ht hst c => ?_
    have ht' := h.of_respects hi hst
    cases c.rejects with
    | some _ => exact allows_idle wiring hX howner ht fun v _ hv => ht'.of_respects hi hv
    | none =>
        have hasked := ht'.asked pending (by simp [hpending])
        rw [ht'.uow] at hasked
        refine allows wiring hX howner ht (.savedSnapshot ht'.outcome hasked) fun v _ hv => ?_
        refine AttemptDone.of_respects (s := t.savedSnapshot pending.aggregateName
          pending.aggregateId pending.snapshot) ?_ hi hv
        exact ⟨ht'.uow, ⟨ht'.unpublished.outcome, ht'.unpublished.committed,
          ht'.unpublished.quiet⟩, ht'.asked⟩

omit [JsValue J] in
theorem Unpublished.settled {u : UowRef} {events : List (Event J)}
    (h : Unpublished u events s)
    (hhooks : u.implicit = false → ∃ within hooks, .hooksTaken u true within hooks ∈ s.history) :
    Settled u [] events s := by
  have hnil : about (.unit u) s.history = about (.unit u) s.history ++ [] := by simp
  have hcalled : calledIn u s.history = [] := by
    rw [← calledIn_about, hnil, calledIn_append h.quiet]
    rfl
  have hresolved : resolvedIn u s.history = [] := by
    rw [← resolvedIn_about, hnil, resolvedIn_append h.quiet]
    rfl
  refine ⟨⟨?_, fun event e hmem => ?_, hhooks⟩, hcalled, hresolved⟩
  · rw [hcalled, List.nil_append]
    exact h.committed
  · simpa [Obs.publishes] using h.quiet _ ((mem_about rfl).mpr hmem)

theorem executeOwned_safe (hX : ∀ k, X (.unit (.attempt task.dispatch k)))
    (hXlock : X (.lock task.dispatch)) (hi : task.dispatch.tid = i)
    (hpersistence : wiring.persistence task.aggregateName = some persistence)
    (hs : Inv wiring s) (htrying : Trying task 0 [] s)
    (hunused : s.uows (.attempt task.dispatch 0) = {}) :
    Safe (protocol wiring X) i
      (fun _ t => Concluded wiring task none t ∧
        ∃ k, (t.uows (.attempt task.dispatch k)).outcome = some true)
      (fun _ => Concluded wiring task none)
      (executeOwned wiring task ambient persistence) s := by
  refine Safe.bind hs ((execute_safe wiring hX hXlock hi hpersistence hs htrying
    hunused).mono ?_ ?_)
  · rintro r t ht ⟨k, hdone, htried⟩
    have howner : (UowRef.attempt task.dispatch k).owner = i := hi
    refine (narrow wiring (Y := Only (.unit (.attempt task.dispatch k)))
      (I := fun v => Tried wiring task k v ∧
        (v.uows (.attempt task.dispatch k)).outcome = some true)
      (Q := fun _ _ => True) (E := fun _ _ => True) ?_ ?_ ⟨htried, hdone.outcome⟩ ?_ ?_).mono
      (fun _ v _ h => ⟨h.2.1.concluded, k, h.2.2⟩) fun _ v _ h => h.2.1.concluded
    · refine Safe.bind ht ((saveSnapshot_safe wiring (only_self _) hi hdone).mono ?_
        fun _ _ _ h => h)
      intro _ v hv hdonev
      have hsettled := hdonev.unpublished.settled (by simp [hdonev.uow, UowRef.implicit])
      rw [hdonev.uow] at hsettled ⊢
      exact (publish_safe wiring (only_self _) howner hv hsettled).mono
        (fun _ _ _ _ => trivial) fun _ _ _ _ => trivial
    · rintro _ rfl
      exact hX k
    · rintro _ t v rfl ht hstep ⟨htried, htrue⟩
      exact ⟨htried.step_unit wiring ht hstep, (hstep.uow _).outcome (ht.units _) htrue⟩
    · rintro t v htv ⟨htried, htrue⟩
      refine ⟨htried.of_respects hi htv, ?_⟩
      rwa [(htv.stays _ howner).outcome]
  · rintro e t - ⟨hover, ⟨k, locks, htrying⟩, hdone⟩
    exact ⟨⟨hover, htrying.unsettled, htrying.started⟩, hdone⟩

end Owned

end Noddde
