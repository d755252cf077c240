import Noddde.Proofs.Attempts
/-!
# The steps of a dispatch, from its start to its settlement

The lifecycle of a dispatch that joins a unit of work, under the lock that the unit of
work is to hold, and the dispatch as a whole.
-/

namespace Noddde

open Async

variable {J Infra : Type} (wiring : Wiring J Infra)

/-! ## The dispatch that joins a unit of work -/

section Joined

variable [JsValue J] {X : Subject → Prop} {i : Tid} {s t : World J} {task : Task J}
  {u : UowRef} {ambient : Ambient} {persistence : PersistenceKind}

omit [JsValue J] in
theorem joined_of_explicit (hu : u.implicit = false) : u.joined = some u := by
  simp [UowRef.joined, hu]

omit [JsValue J] in
theorem lifecycle_of_explicit {d : Origin} (hu : u.implicit = false) :
    Subject.lifecycle d u = .dispatch d := by
  simp [Subject.lifecycle, hu]

/-- The lock that a joined unit of work is to hold until it settles. -/
theorem acquireLockForUow_safe {timeoutMs : Option Nat} (hX : X (.lock task.dispatch))
    (hi : task.dispatch.tid = i)
    (hpessimistic : wiring.concurrency.resolve task.aggregateName = .pessimistic timeoutMs)
    (hs : Inv wiring s) (hunderway : Underway task (some u) s)
    (hunlocked : about (.lock task.dispatch) s.history = []) (hu : u.implicit = false) :
    Safe (protocol wiring X) i
      (fun _ t => Concluded wiring task (some u) t ∧ Guarded wiring task u t.history)
      (fun _ => Concluded wiring task (some u))
      (acquireLockForUow task.dispatch task.aggregateName task.aggregateId timeoutMs u :
        Eff J Infra Unit) s := by
  have hstep : ∀ {t v}, Step wiring (.lock task.dispatch) t v → Underway task (some u) t →
      Underway task (some u) v := fun hstep h =>
    h.step wiring hstep (by simp) (by simp)
  refine Safe.bind hs ((narrow wiring (I := Underway task (some u)) (acquire_safe wiring
    (X := Only (.lock task.dispatch)) (only_self _) hi hs hunderway.started hpessimistic
    hunlocked hunderway.unsettled) (by rintro _ rfl; exact hX) hunderway
    (by rintro _ t v rfl - h; exact hstep h)
    fun t v htv h => h.of_respects hi htv).mono ?_ ?_)
  · rintro _ t ht ⟨⟨hgranted, hasked⟩, hunderwayt⟩
    refine Safe.call fun v hv htv _ => ?_
    have haskedv := hasked.of_respects hi htv
    have hunderwayv := hunderwayt.of_respects hi htv
    have hgrantedv := hgranted.imp (fun h => htv.mem h) fun h => htv.mem h
    have hfirst : ¬ ReleaseRegistered task u v.history := by
      unfold ReleaseRegistered
      rw [← mem_about (x := .lock task.dispatch) rfl]
      intro hmem
      simpa using haskedv _ hmem
    have hregistered : Step wiring (.lock task.dispatch) v _ :=
      .registeredRelease hunderwayv.started hgrantedv hfirst
    refine allows wiring hX hi hv hregistered fun x _ hx => ?_
    have hgrantedx : Granted ⟨task.dispatch, some u⟩ task.key x.history :=
      hgrantedv.imp (fun h => hx.mem (hregistered.adds.grows.subset h))
        fun h => hx.mem (hregistered.adds.grows.subset h)
    have hrelease : ReleaseRegistered task u x.history := hx.mem List.mem_cons_self
    have hunderwayx := (hstep hregistered hunderwayv).of_respects hi hx
    refine ⟨⟨hunderwayx, fun key hcalled => ?_⟩, ?_⟩
    · rw [← mem_about (x := .lock task.dispatch) rfl, hx.about (.lock task.dispatch) hi,
        mem_about rfl] at hcalled
      have hcalled : .acquireCalled ⟨task.dispatch, some u⟩ key ∈ v.history := by
        simpa [onUowSettled, World.note, World.setHooks, bind, Segment.modify, note]
          using hcalled
      obtain rfl := haskedv.key_eq hcalled
      exact ⟨rfl, .inr ⟨hgrantedx, hrelease⟩⟩
    · intro _ _
      rw [joined_of_explicit hu]
      exact ⟨hgrantedx, hunderwayx.unsettled, hrelease⟩
  · rintro e t - ⟨⟨htimedOut, hasked⟩, hunderwayt⟩
    exact ⟨hunderwayt, hasked.lockDone_of_timedOut wiring htimedOut⟩

omit [JsValue J] in
def Uncontributed (d : Origin) (w : World J) : Prop :=
  contributionsIn wiring (about (.dispatch d) w.history) = []

theorem runLifecycleOn_safe (hX : X (.dispatch task.dispatch)) (hXlock : X (.lock task.dispatch))
    (hi : task.dispatch.tid = i)
    (hpersistence : wiring.persistence task.aggregateName = some persistence)
    (hs : Inv wiring s) (hunderway : Underway task (some u) s)
    (hunlocked : about (.lock task.dispatch) s.history = [])
    (huncontributed : Uncontributed wiring task.dispatch s) (hu : u.implicit = false) :
    Safe (protocol wiring X) i
      (fun snapshotResult t => Contributed wiring task u snapshotResult t ∧
        Concluded wiring task (some u) t)
      (fun _ t => Failed wiring task u t ∧ Concluded wiring task (some u) t)
      (runLifecycleOn wiring task ambient persistence u) s := by
  have htries : ∀ {t : World J}, Uncontributed wiring task.dispatch t →
      ∀ complete ∈ contributionsIn wiring
        (about (.lifecycle task.dispatch u) t.history), ¬ complete := by
    intro t h
    rw [lifecycle_of_explicit hu, h]
    simp
  -- under a pessimistic strategy the lifecycle runs once
  let Once (t : World J) : Prop := ∀ timeoutMs,
    wiring.concurrency.resolve task.aggregateName = .pessimistic timeoutMs →
      contributionsIn wiring (about (.lifecycle task.dispatch u) t.history) = []
  have hbegun : ∀ {t : World J}, .started task (some u) ∈ t.history → Begun task u t.history :=
    fun h => ⟨by rwa [joined_of_explicit hu], by simp [hu]⟩
  have hproceeds : ∀ {t : World J}, Underway task (some u) t → Guarded wiring task u t.history →
      Failed wiring task u t → Once t → Proceeds wiring task u t :=
    fun hunderway hguarded hfailed honce =>
      ⟨hbegun hunderway.started, hguarded, hunderway.unsettled, by simp [hu], hfailed.tries,
        fun _ => honce, by simp [hu]⟩
  -- the lifecycle itself, once the lock is settled
  have hrun : ∀ {t}, Inv wiring t → Concluded wiring task (some u) t →
      Guarded wiring task u t.history → Failed wiring task u t → Once t →
      Safe (protocol wiring X) i
        (fun snapshotResult t => Contributed wiring task u snapshotResult t ∧
          Concluded wiring task (some u) t)
        (fun _ t => Failed wiring task u t ∧ Concluded wiring task (some u) t)
        (executeLifecycle wiring task u ambient persistence) t := by
    intro t ht hconcluded hguarded hfailed honce
    refine narrow wiring (Y := Only (.dispatch task.dispatch))
      (executeLifecycle_safe wiring (by rw [lifecycle_of_explicit hu]; exact only_self _) hi
        hpersistence ht (hproceeds hconcluded.toUnderway hguarded hfailed honce))
      (by rintro _ rfl; exact hX) hconcluded ?_ fun t v htv h => h.of_respects wiring hi htv
    rintro _ t v rfl - hstep h
    exact ⟨h.toUnderway.step wiring hstep (by simp) (by simp),
      h.lockDone.mono wiring hstep.adds.grows.subset (hstep.adds.about (by simp))⟩
  unfold runLifecycleOn
  dsimp only
  cases hstrategy : wiring.concurrency.resolve task.aggregateName with
  | optimistic maxRetries =>
      have hguarded : ∀ h, Guarded wiring task u h := fun _ _ hpessimistic => by
        simp [hstrategy] at hpessimistic
      have honce : ∀ t, Once t := fun _ _ hpessimistic => by
        simp [hstrategy] at hpessimistic
      have hconcluded : Concluded wiring task (some u) s :=
        ⟨hunderway, .of_nil wiring hunlocked⟩
      have hfailed : Failed wiring task u s := ⟨by simp [hu], fun _ => htries huncontributed⟩
      cases hconcurrency : wiring.concurrency with
      | base strategy =>
          have hbase : strategy = .optimistic maxRetries := by
            simpa [ConcurrencyStrategy.resolve, hconcurrency] using hstrategy
          subst hbase
          refine retryOnConflict_safe wiring (I := fun _ t =>
            Failed wiring task u t ∧ Concluded wiring task (some u) t) ?_ ?_ maxRetries 0 hs
            ⟨hfailed, hconcluded⟩
          · intro _ t ht hI
            exact (hrun ht hI.2 (hguarded _) hI.1 (honce t)).mono (fun _ _ _ h => h)
              fun _ _ _ h => ⟨h, h⟩
          · exact fun t v htv h => ⟨h.1.of_respects (hbegun h.2.started) hi htv,
              h.2.of_respects wiring hi htv⟩
      | perAggregate strategies defaultStrategy =>
          have hdefault : (strategies task.aggregateName).getD defaultStrategy =
              .optimistic maxRetries := by
            simpa [ConcurrencyStrategy.resolve, hconcurrency] using hstrategy
          simp only [ConcurrencyStrategy.acquireForUow?, hdefault]
          exact hrun hs hconcluded (hguarded _) hfailed (honce s)
  | pessimistic timeoutMs =>
      have hacquire : wiring.concurrency.acquireForUow? task.dispatch task.aggregateName
          task.aggregateId u = some (acquireLockForUow task.dispatch task.aggregateName
            task.aggregateId timeoutMs u : Eff J Infra Unit) := by
        cases hconcurrency : wiring.concurrency with
        | base strategy =>
            have hbase : strategy = .pessimistic timeoutMs := by
              simpa [ConcurrencyStrategy.resolve, hconcurrency] using hstrategy
            simp [ConcurrencyStrategy.acquireForUow?, hbase]
        | perAggregate strategies defaultStrategy =>
            have hdefault : (strategies task.aggregateName).getD defaultStrategy =
                .pessimistic timeoutMs := by
              simpa [ConcurrencyStrategy.resolve, hconcurrency] using hstrategy
            simp [ConcurrencyStrategy.acquireForUow?, hdefault]
      rw [hacquire]
      refine Safe.bind hs ((narrow wiring (I := Uncontributed wiring task.dispatch)
        (acquireLockForUow_safe wiring (X := Only (.lock task.dispatch)) (only_self _) hi
          hstrategy hs hunderway hunlocked hu) (by rintro _ rfl; exact hXlock) huncontributed
        ?_ ?_).mono ?_ ?_)
      · rintro _ t v rfl - hstep h
        unfold Uncontributed
        rwa [hstep.adds.about (by simp)]
      · intro t v htv h
        unfold Uncontributed
        rwa [htv.about (.dispatch task.dispatch) hi]
      · rintro _ t ht ⟨⟨hconcluded, hguarded⟩, huncontributedt⟩
        refine hrun ht hconcluded hguarded ⟨by simp [hu], fun _ => htries huncontributedt⟩
          fun _ _ => ?_
        rw [lifecycle_of_explicit hu]
        exact huncontributedt
      · rintro e t - ⟨hconcluded, huncontributedt⟩
        exact ⟨⟨by simp [hu], fun _ => htries huncontributedt⟩, hconcluded⟩

def Ends (task : Task J) (uow : Option UowRef) (error : Option Err) (w : World J) : Prop :=
  Concluded wiring task uow w ∧ match uow with
    | some _ => Fate wiring task.dispatch error w.history
    | none => error = none → .skipped task.dispatch ∈ w.history ∨
        ∃ k, (w.uows (.attempt task.dispatch k)).outcome = some true

omit [JsValue J] in
theorem Fate.of_respects {d : Origin} {error : Option Err} (h : Fate wiring d error s.history)
    (hi : d.tid = i) (hst : Respects i s t) : Fate wiring d error t.history := by
  unfold Fate at h ⊢
  rw [hst.about (.dispatch d) hi]
  cases error with
  | some e => exact h
  | none => exact h.imp (fun h => ⟨hst.mem h.1, h.2⟩) id

omit [JsValue J] in
theorem Ends.of_respects {uow : Option UowRef} {error : Option Err}
    (h : Ends wiring task uow error s) (hi : task.dispatch.tid = i) (hst : Respects i s t) :
    Ends wiring task uow error t := by
  refine ⟨h.1.of_respects wiring hi hst, ?_⟩
  cases uow with
  | some u => exact h.2.of_respects wiring hi hst
  | none =>
      refine fun herror => (h.2 herror).imp (fun h => hst.mem h) fun ⟨k, hk⟩ => ⟨k, ?_⟩
      rwa [(hst.stays (.attempt task.dispatch k) hi).outcome]

theorem executeJoined_safe (hX : X (.dispatch task.dispatch)) (hXlock : X (.lock task.dispatch))
    (hi : task.dispatch.tid = i)
    (hpersistence : wiring.persistence task.aggregateName = some persistence)
    (hs : Inv wiring s) (hunderway : Underway task (some u) s)
    (hunlocked : about (.lock task.dispatch) s.history = [])
    (huncontributed : Uncontributed wiring task.dispatch s) (hu : u.implicit = false) :
    Safe (protocol wiring X) i (fun _ => Ends wiring task (some u) none)
      (fun e => Ends wiring task (some u) (some e))
      (executeJoined wiring task ambient persistence u) s := by
  refine Safe.bind hs ((runLifecycleOn_safe wiring hX hXlock hi hpersistence hs hunderway
    hunlocked huncontributed hu).mono ?_ ?_)
  · rintro snapshotResult t ht ⟨hcontributed, hconcluded⟩
    have hends : Ends wiring task (some u) none t := by
      refine ⟨hconcluded, .inr ?_⟩
      have hlast := hcontributed.last hu
      rwa [lifecycle_of_explicit hu] at hlast
    unfold deferSnapshot
    split
    · exact Safe.pure fun v _ htv => hends.of_respects wiring hi htv
    · rename_i pending
      refine Safe.call fun v hv htv _ => ?_
      have hregistered : Step wiring (.dispatch task.dispatch) v _ := .registeredSnapshot hu
        (hcontributed.begun.of_respects htv)
        ((hcontributed.asked pending rfl).mono htv.grows.subset)
      have hendsv := hends.of_respects wiring hi htv
      refine allows wiring hX hi hv hregistered fun x _ hx =>
        Ends.of_respects wiring ⟨⟨?_, ?_⟩, ?_⟩ hi hx
      · exact hendsv.1.toUnderway.step wiring hregistered (by simp) (by simp)
      · exact hendsv.1.lockDone.mono wiring hregistered.adds.grows.subset
          (hregistered.adds.about (by simp))
      · have hsame : contributionsIn wiring (about (.dispatch task.dispatch)
            (onUowCommitted u task.dispatch (.saveSnapshot pending.aggregateName
              pending.aggregateId pending.snapshot) v).2.history) =
            contributionsIn wiring (about (.dispatch task.dispatch) v.history) := by
          refine contributionsIn_note wiring (s := v.setHooks u _) (o := .registered u
            task.dispatch (.saveSnapshot pending.aggregateName pending.aggregateId
              pending.snapshot)) (by simp)
        have hfate := hendsv.2
        unfold Fate at hfate ⊢
        rw [hsame]
        exact hfate.imp (fun h => ⟨List.mem_cons_of_mem _ h.1, h.2⟩) id
  · rintro e t - ⟨hfailed, hconcluded⟩
    have htries := hfailed.tries hu
    rw [lifecycle_of_explicit hu] at htries
    exact ⟨hconcluded, htries⟩

end Joined

/-! ## The dispatch as a whole -/

section Dispatch

variable [JsValue J] {X : Subject → Prop} {i : Tid} {s t : World J} {task : Task J}
  {ambient : Ambient} {uow : Option UowRef}

def Serves (d : Origin) : Subject → Prop
  | .call d' | .dispatch d' | .lock d' | .unit (.attempt d' _) => d' = d
  | _ => False

structure Starts (task : Task J) (uow : Option UowRef) (w : World J) : Prop where
  started : .started task uow ∈ w.history
  ready : Ready task.dispatch 0 w
  unlocked : about (.lock task.dispatch) w.history = []
  uncontributed : Uncontributed wiring task.dispatch w

variable {wiring} in
omit [JsValue J] in
theorem Starts.of_respects (h : Starts wiring task uow s) (hi : task.dispatch.tid = i)
    (hst : Respects i s t) : Starts wiring task uow t where
  started := hst.mem h.started
  ready := hst.ready hi h.ready
  unlocked := by rw [hst.about (.lock task.dispatch) hi, h.unlocked]
  uncontributed := by
    unfold Uncontributed
    rw [hst.about (.dispatch task.dispatch) hi]
    exact h.uncontributed

omit [JsValue J] in
theorem Starts.underway (h : Starts wiring task uow s) : Underway task uow s :=
  ⟨h.ready.ended, h.ready.unsettled, h.started⟩

omit [JsValue J] in
theorem Starts.concluded (h : Starts wiring task uow s) : Concluded wiring task uow s :=
  ⟨h.underway, .of_nil wiring h.unlocked⟩

omit [JsValue J] in
/-- A dispatch that fails before it does anything. -/
theorem Starts.fails (h : Starts wiring task uow s) (e : Err) :
    Ends wiring task uow (some e) s := by
  refine ⟨h.concluded, ?_⟩
  cases uow with
  | none => simp
  | some u =>
      have hnone := h.uncontributed
      unfold Uncontributed at hnone
      simp [Fate, hnone]

omit [JsValue J] in
theorem Starts.skips (h : Starts wiring task uow s)
    (hskipped : .skipped task.dispatch ∈ s.history) : Ends wiring task uow none s := by
  refine ⟨h.concluded, ?_⟩
  cases uow with
  | none => exact fun _ => .inl hskipped
  | some u => exact .inl ⟨hskipped, h.uncontributed⟩

theorem alreadyProcessed_safe {E : Err → World J → Prop} (hX : X (.dispatch task.dispatch))
    (hi : task.dispatch.tid = i) (h : Starts wiring task uow s) :
    Safe (protocol wiring X) i
      (fun duplicate t => Starts wiring task uow t ∧
        (duplicate = true → .skipped task.dispatch ∈ t.history)) E
      (alreadyProcessed wiring task) s := by
  unfold alreadyProcessed
  split
  · rename_i commandId ttlMs hcommand hstore
    refine Safe.call fun t ht hst c => ?_
    have ht' := h.of_respects hi hst
    have hchecked : Step wiring _ t (t.checked ttlMs c.now commandId task) :=
      .checked hcommand hstore ⟨uow, ht'.started⟩
    refine allows wiring hX hi ht hchecked fun v _ hv => ?_
    have hsteps : Starts wiring task uow (t.checked ttlMs c.now commandId task) := by
      have huows : (t.checked ttlMs c.now commandId task).uows = t.uows := by
        unfold World.checked
        dsimp only
        split <;> rfl
      refine ⟨hchecked.adds.grows.subset ht'.started, ⟨by simp, fun j hj => ?_, fun e => ?_⟩,
        ?_, ?_⟩
      · rw [huows, ht'.ready.unused j hj]
      · have hunsettled := ht'.ready.unsettled e
        rw [← mem_about (x := .call task.dispatch) rfl] at hunsettled ⊢
        rwa [hchecked.adds.about (by simp)]
      · rw [hchecked.adds.about (by simp), ht'.unlocked]
      · have hnone := ht'.uncontributed
        unfold Uncontributed at hnone ⊢
        unfold World.checked
        dsimp only
        split
        · exact (contributionsIn_note wiring (by simp)).trans hnone
        · exact hnone
    refine ⟨hsteps.of_respects hi hv, fun hfound => hv.mem ?_⟩
    dsimp only
    rw [if_pos hfound]
    exact List.mem_cons_self
  · exact Safe.pure fun t _ hst => ⟨h.of_respects hi hst, by simp⟩

theorem execute_ends (hX : ∀ x, Serves task.dispatch x → X x) (hi : task.dispatch.tid = i)
    (hs : Inv wiring s) (h : Starts wiring task ambient.uow s) :
    Safe (protocol wiring X) i (fun _ => Ends wiring task ambient.uow none)
      (fun e => Ends wiring task ambient.uow (some e)) (execute wiring task ambient) s := by
  refine Safe.bind hs ((alreadyProcessed_safe wiring (hX (.dispatch _) rfl) hi h).mono ?_
    fun _ _ _ h => h)
  rintro duplicate t ht ⟨hstarts, hskipped⟩
  cases duplicate with
  | true =>
      exact Safe.pure fun v _ htv =>
        (hstarts.skips wiring (hskipped rfl)).of_respects wiring hi htv
  | false =>
      simp only [Bool.false_eq_true, if_false]
      cases hpersistence : wiring.persistence task.aggregateName with
      | none => exact Safe.throw fun v _ htv => (hstarts.fails wiring _).of_respects wiring hi htv
      | some persistence =>
          cases huow : ambient.uow with
          | none =>
              rw [huow] at hstarts
              have htrying : Trying task 0 [] t :=
                ⟨hstarts.ready.failed, fun j _ => hstarts.ready.unused j (Nat.zero_le j),
                  hstarts.ready.unsettled, hstarts.started, hstarts.unlocked⟩
              refine (executeOwned_safe wiring (fun k => hX (.unit (.attempt _ k)) rfl)
                (hX (.lock _) rfl) hi hpersistence ht htrying
                (hstarts.ready.unused 0 le_rfl)).mono ?_ ?_
              · exact fun _ v _ h => ⟨h.1, fun _ => .inr h.2⟩
              · exact fun e v _ h => ⟨h, by simp⟩
          | some u =>
              rw [huow] at hstarts
              exact executeJoined_safe wiring (hX (.dispatch _) rfl) (hX (.lock _) rfl) hi
                hpersistence ht hstarts.underway hstarts.unlocked hstarts.uncontributed
                (ambient.explicit u (by simp [huow]))

theorem dispatch_safe (hX : ∀ x, Serves task.dispatch x → X x) (hi : task.dispatch.tid = i)
    (hs : Inv wiring s) (h : Fresh task.dispatch s) :
    Safe (protocol wiring X) i (fun _ t => .settled task.dispatch none ∈ t.history)
      (fun e t => .settled task.dispatch (some e) ∈ t.history)
      (dispatch wiring task ambient) s := by
  refine Safe.bind hs (Safe.await fun t ht hst _ r v hact => ?_)
  have hfresh := hst.fresh hi h
  split at hact
  swap
  · simp at hact
  rename_i hcreated
  obtain ⟨rfl, rfl⟩ := by simpa using hact
  refine allows_noted wiring (hX (.call _) rfl) hi ht (.inl rfl)
    ⟨hfresh, fun u hu => ⟨ambient.explicit u hu, hcreated u hu⟩⟩ fun v hv htv => ?_
  have hstarts : Starts wiring task ambient.uow v := by
    refine Starts.of_respects (s := t.note (.started task ambient.uow))
      ⟨List.mem_cons_self, ⟨by simp, fun j _ => hfresh.unused j, fun e => ?_⟩, ?_, ?_⟩ hi htv
    · rw [← mem_about (x := .call task.dispatch) rfl, about_note_self _ rfl, hfresh.uncalled]
      simp
    · rw [about_note_ne _ (by simp [Obs.subject]), hfresh.unlocked]
    · unfold Uncontributed
      rw [about_note_ne _ (by simp [Obs.subject]), hfresh.noted]
      rfl
  refine Safe.bind hv ((Safe.attempt (Q := fun outcome => Ends wiring task ambient.uow
    (rejection outcome)) (execute_ends wiring hX hi hv hstarts)).mono ?_ fun _ _ _ h => h)
  intro outcome x hx hends
  refine Safe.call fun y hy hxy _ => ?_
  have hendsy := hends.of_respects wiring hi hxy
  simp only [Segment.wp_bind, note, Segment.wp_modify, Segment.wp_ofExcept]
  refine allows_noted wiring (hX (.call _) rfl) hi hy (.inl rfl)
    ⟨hendsy.1.ended, hendsy.1.unsettled, task, ambient.uow, rfl, hendsy.1.started,
      hendsy.1.lockDone, hendsy.2⟩ fun z _ hz => ?_
  have hmem := hz.mem (List.mem_cons_self (a := Obs.settled task.dispatch (rejection outcome)))
  cases outcome with
  | ok _ => exact hmem
  | error e => exact hmem

end Dispatch

end Noddde
