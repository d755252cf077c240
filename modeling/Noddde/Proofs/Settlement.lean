import Noddde.Proofs.Walk
/-!
# The steps of the owner of a unit of work

Commit, rollback and publishing, by the thread that owns the unit of work.
-/

namespace Noddde

open Async

variable {J Infra : Type} (wiring : Wiring J Infra)

def CommitFailed (u : UowRef) (e : Err) (h : List (Obs J)) : Prop :=
  (∃ operation, .refused u operation e ∈ h) ∨ .commitRejected u e ∈ h

/-- The events of `u` are committed, and none has been handed to the bus. -/
structure Unpublished (u : UowRef) (events : List (Event J)) (w : World J) : Prop where
  outcome : (w.uows u).outcome = some true
  committed : .committed u events ∈ w.history
  quiet : ∀ o ∈ about (.unit u) w.history, o.publishes u = false

theorem subject_of_publishes {u : UowRef} {o : Obs J} (h : o.publishes u = true) :
    o.subject = some (.unit u) := by
  cases o with
  | dispatchCalled v => cases v <;> simp_all [Obs.publishes, Obs.subject]
  | dispatchResolved v => cases v <;> simp_all [Obs.publishes, Obs.subject]
  | dispatchRejected v => cases v <;> simp_all [Obs.publishes, Obs.subject]
  | _ => simp [Obs.publishes] at h

theorem Running.of_stays {u : UowRef} {rest : List (Operation J)} {s t : World J}
    (h : Running u rest s) (hst : Stays u s t) : Running u rest t := by
  have hsame := hst.frozen h.completed
  exact ⟨by rw [hsame, h.completed], by rw [hsame, h.outcome], by rw [hsame, h.operations]⟩

theorem Unpublished.of_respects {u : UowRef} {events : List (Event J)} {i : Tid}
    {s t : World J} (h : Unpublished u events s) (hi : u.owner = i) (hst : Respects i s t) :
    Unpublished u events t where
  outcome := by rw [(hst.stays u hi).outcome, h.outcome]
  committed := hst.mem h.committed
  quiet := by
    rw [hst.about (.unit u) hi]
    exact h.quiet

section Commit

variable [JsValue J] {X : Subject → Prop} {i : Tid} {s : World J} {u : UowRef}

theorem commit_safe' (hX : X (.unit u)) (hi : u.owner = i) (hs : Inv wiring s)
    (hopen : (s.uows u).completed = false)
    (himplicit : u.implicit = true → (s.uows u).operations ≠ [])
    (hexplicit : u.implicit = false → .fnSettled u none ∈ s.history) :
    Safe (protocol wiring X) i
      (fun events t => Unpublished u events t ∧ t.frames u = s.frames u)
      (fun e t => ((t.uows u).outcome = some false ∧ CommitFailed u e t.history) ∧
        t.frames u = s.frames u)
      (commit wiring u) s := by
  have houtcome : ∀ {s t : World J}, Respects i s t →
      (t.uows u).outcome = (s.uows u).outcome := fun h => (h.stays u hi).outcome
  have hframe : ∀ {s t : World J}, Respects i s t → t.frames u = s.frames u :=
    fun h => (h.stays u hi).frame
  refine commit_safe wiring (L := fun rest t => Running u rest t ∧ t.frames u = s.frames u) hs
    ⟨fun t => ⟨.unit u, hX, hi, .idle⟩, ?_, ?_, ?_, ?_, ?_, ?_⟩
  · intro t ht hst hcompleted
    rw [(hst.stays u hi).completed, hopen] at hcompleted
    simp at hcompleted
  · intro t ht hst hopen
    refine allows wiring hX hi ht (.committing hopen (fun hu => ?_)
      fun hu => hst.mem (hexplicit hu)) fun v _ htv =>
        ⟨?_, (hframe htv).trans (hst.stays u hi).frame⟩
    · rw [(hst.stays u hi).implicit hu]
      exact himplicit hu
    · have hself : (t.committing u).uows u = { t.uows u with completed := true } :=
        t.uows_setUow_self _
      obtain ⟨hexecuted, hnone⟩ := (ht.units u).fresh hopen
      refine Running.of_stays ⟨?_, ?_, ?_⟩ (htv.stays u hi)
      · rw [hself]
      · rw [hself]; exact hnone
      · rw [hself]; simp [hexecuted]
  · rintro operation rest t ht ⟨hrunning, hframet⟩
    refine ⟨fun v v' hv htv hstores => ?_, fun v v' e hv htv hrefuses => ?_⟩
    · have hrunning' := hrunning.of_stays (htv.stays u hi)
      refine allows wiring hX hi hv (.ran hrunning' hstores) fun x _ hvx => ⟨?_, ?_⟩
      · have hself : (v'.ran u operation).uows u =
            { v.uows u with executed := (v.uows u).executed ++ [operation] } := by
          rw [← hstores.control.uows]
          exact v'.uows_setUow_self fun uow =>
            { uow with executed := uow.executed ++ [operation] }
        refine Running.of_stays ⟨?_, ?_, ?_⟩ (hvx.stays u hi)
        · rw [hself]; exact hrunning'.completed
        · rw [hself]; exact hrunning'.outcome
        · rw [hself]; simp [hrunning'.operations]
      · rw [hframe hvx, ← hframet, ← hframe htv, ← hstores.control.frames]
        rfl
    · refine allows wiring hX hi hv (.refused (hrunning.of_stays (htv.stays u hi)) hrefuses)
        fun x _ hvx => ⟨⟨?_, .inl ⟨operation, hvx.mem List.mem_cons_self⟩⟩, ?_⟩
      · rw [houtcome hvx]
        simp [World.refused, World.note, World.setUow]
      · rw [hframe hvx, ← hframet, ← hframe htv, ← hrefuses.control.frames]
        rfl
  · exact fun rest t v _ htv h => ⟨h.1.of_stays (htv.stays u hi), (hframe htv).trans h.2⟩
  · rintro t ht ⟨hrunning, hframet⟩
    refine allows wiring hX hi ht (.committed hrunning) fun v _ htv =>
      ⟨Unpublished.of_respects ⟨?_, List.mem_cons_self, fun o ho => ?_⟩ hi htv,
        (hframe htv).trans hframet⟩
    · simp [World.committed, World.note, World.setUow]
    · by_contra hpublishes
      have hpublishes : o.publishes u = true := by simpa using hpublishes
      rcases List.mem_cons.mp (List.mem_of_mem_filter ho) with rfl | ho
      · simp [Obs.publishes] at hpublishes
      · simpa [hrunning.outcome] using ht.published u o ho hpublishes
  · rintro t e ht ⟨hrunning, hframet⟩ hmay
    refine allows wiring hX hi ht (.commitRejected hrunning hmay) fun v _ htv =>
      ⟨⟨?_, .inr (htv.mem List.mem_cons_self)⟩, (hframe htv).trans hframet⟩
    rw [houtcome htv]
    simp [World.commitRejected, World.note, World.setUow]

/-- The owner gives up an open unit of work, or one whose commit has failed. -/
theorem tryRollback_safe' {E : Err → World J → Prop} (hX : X (.unit u)) (hi : u.owner = i)
    (hs : Inv wiring s)
    (hgiveUp : (s.uows u).outcome = some false ∨ (s.uows u).completed = false ∧
      (u.implicit = false → ∃ e, .fnSettled u (some e) ∈ s.history)) :
    Safe (protocol wiring X) i
      (fun _ t => (t.uows u).outcome = some false ∧ t.frames u = s.frames u) E
      (tryRollback wiring u) s := by
  refine tryRollback_safe wiring hs (fun t v _ htv h => ?_)
    ⟨fun t ht hst hcompleted => ?_, fun t ht hst hopen => ?_⟩
  · rwa [(htv.stays u hi).outcome, (htv.stays u hi).frame]
  · refine allows_idle wiring hX hi ht fun v _ htv => ?_
    rw [(htv.stays u hi).outcome, (hst.stays u hi).outcome, (htv.stays u hi).frame,
      (hst.stays u hi).frame]
    refine ⟨hgiveUp.resolve_right fun h => ?_, rfl⟩
    rw [(hst.stays u hi).completed, h.1] at hcompleted
    simp at hcompleted
  · have hfailed := hgiveUp.resolve_left fun h => by
      rw [← (hst.stays u hi).outcome, (ht.units u).fresh hopen |>.2] at h
      simp at h
    refine allows wiring hX hi ht (.rolledBack hopen fun hu => ?_) fun v _ htv => ⟨?_, ?_⟩
    · obtain ⟨e, he⟩ := hfailed.2 hu
      exact ⟨e, hst.mem he⟩
    · rw [(htv.stays u hi).outcome]
      simp [World.rolledBack, World.note, World.setUow]
    · exact ((htv.stays u hi).frame).trans (hst.stays u hi).frame

end Commit

/-! ## Publishing -/

section Histories

variable {u : UowRef} {h g : List (Obs J)}

theorem calledIn_append (hh : ∀ o ∈ g, o.publishes u = false) :
    calledIn u (g ++ h) = calledIn u h := by
  induction g with
  | nil => rfl
  | cons o rest ih =>
      have hrest := ih fun o' ho' => hh o' (List.mem_cons_of_mem _ ho')
      have ho := hh o List.mem_cons_self
      cases o with
      | dispatchCalled v => cases v <;> simp_all [calledIn, Obs.publishes]
      | _ => simpa [calledIn] using hrest

theorem resolvedIn_append (hh : ∀ o ∈ g, o.publishes u = false) :
    resolvedIn u (g ++ h) = resolvedIn u h := by
  induction g with
  | nil => rfl
  | cons o rest ih =>
      have hrest := ih fun o' ho' => hh o' (List.mem_cons_of_mem _ ho')
      have ho := hh o List.mem_cons_self
      cases o with
      | dispatchResolved v => cases v <;> simp_all [resolvedIn, Obs.publishes]
      | _ => simpa [resolvedIn] using hrest

/-- Both are read off what concerns `u`. -/
theorem calledIn_about : calledIn u (about (.unit u) h) = calledIn u h := by
  induction h with
  | nil => rfl
  | cons o rest ih =>
      cases ho : o.publishes u with
      | true =>
          rw [about, List.filter_cons_of_pos (by simp [subject_of_publishes ho]), ← about]
          cases o with
          | dispatchCalled v => cases v <;> simp_all [calledIn]
          | _ => simpa [calledIn] using ih
      | false =>
          have hcons : ∀ l, calledIn u (o :: l) = calledIn u l := fun l =>
            calledIn_append (g := [o]) (by simpa using ho)
          rw [hcons, ← ih, about, List.filter_cons]
          split
          · rw [hcons]; rfl
          · rfl

theorem resolvedIn_about : resolvedIn u (about (.unit u) h) = resolvedIn u h := by
  induction h with
  | nil => rfl
  | cons o rest ih =>
      cases ho : o.publishes u with
      | true =>
          rw [about, List.filter_cons_of_pos (by simp [subject_of_publishes ho]), ← about]
          cases o with
          | dispatchResolved v => cases v <;> simp_all [resolvedIn]
          | _ => simpa [resolvedIn] using ih
      | false =>
          have hcons : ∀ l, resolvedIn u (o :: l) = resolvedIn u l := fun l =>
            resolvedIn_append (g := [o]) (by simpa using ho)
          rw [hcons, ← ih, about, List.filter_cons]
          split
          · rw [hcons]; rfl
          · rfl

end Histories

theorem Respects.calledIn {i : Tid} {u : UowRef} {s t : World J} (h : Respects i s t)
    (hi : u.owner = i) : calledIn u t.history = calledIn u s.history := by
  rw [← calledIn_about, h.about (.unit u) hi, calledIn_about]

theorem Respects.resolvedIn {i : Tid} {u : UowRef} {s t : World J} (h : Respects i s t)
    (hi : u.owner = i) : resolvedIn u t.history = resolvedIn u s.history := by
  rw [← resolvedIn_about, h.about (.unit u) hi, resolvedIn_about]

theorem Publishing.of_respects {u : UowRef} {rest : List (Event J)} {i : Tid} {s t : World J}
    (h : Publishing u rest s) (hi : u.owner = i) (hst : Respects i s t) :
    Publishing u rest t where
  committed := by
    rw [hst.calledIn hi]
    exact hst.mem h.committed
  accepted event e := hst.notMem (x := .unit u) hi rfl (h.accepted event e)
  hooks hu := by
    obtain ⟨within, hooks, hmem⟩ := h.hooks hu
    exact ⟨within, hooks, hst.mem hmem⟩

/-- The events `done` have been published, and `rest` is still to come. -/
structure Settled (u : UowRef) (done rest : List (Event J)) (w : World J) : Prop where
  publishing : Publishing u rest w
  called : calledIn u w.history = done
  resolved : resolvedIn u w.history = done

theorem Settled.of_respects {u : UowRef} {done rest : List (Event J)} {i : Tid}
    {s t : World J} (h : Settled u done rest s) (hi : u.owner = i) (hst : Respects i s t) :
    Settled u done rest t :=
  ⟨h.publishing.of_respects hi hst, by rw [hst.calledIn hi, h.called],
    by rw [hst.resolvedIn hi, h.resolved]⟩

/-- An observation other than a rejection leaves what is known of the publishing. -/
theorem Publishing.note {u : UowRef} {rest rest' : List (Event J)} {s : World J} {o : Obs J}
    (h : Publishing u rest s) (ho : ∀ event e, o ≠ .dispatchRejected (some u) event e)
    (hrest : calledIn u (s.note o).history ++ rest' = calledIn u s.history ++ rest) :
    Publishing u rest' (s.note o) where
  committed := by
    rw [hrest]
    exact List.mem_cons_of_mem _ h.committed
  accepted event e hmem := by
    rcases List.mem_cons.mp hmem with hmem | hmem
    · exact ho event e hmem.symm
    · exact h.accepted event e hmem
  hooks hu := by
    obtain ⟨within, hooks, hmem⟩ := h.hooks hu
    exact ⟨within, hooks, List.mem_cons_of_mem _ hmem⟩

section Publish

variable [JsValue J] {X : Subject → Prop} {i : Tid} {s : World J} {u : UowRef}

theorem busDispatch_safe {event : Event J} {done rest : List (Event J)} (hX : X (.unit u))
    (hi : u.owner = i) (hs : Inv wiring s) (h : Settled u done (event :: rest) s) :
    Safe (protocol wiring X) i (fun _ => Settled u (done ++ [event]) rest)
      (fun e t => .dispatchRejected (some u) event e ∈ t.history)
      (busDispatch (some u) event : Eff J Infra Unit) s := by
  refine Safe.bind hs (Safe.call fun t ht hst _ => ?_)
  have ht' := h.of_respects hi hst
  refine allows_noted wiring hX hi ht (.inl rfl)
    ⟨⟨rest, ht'.publishing⟩, ht'.resolved.trans ht'.called.symm⟩ fun v hv htv => ?_
  have hcalled : calledIn u v.history = done ++ [event] := by
    rw [htv.calledIn hi]
    simp [World.note, calledIn, ht'.called]
  have hresolved : resolvedIn u v.history = done := by
    rw [htv.resolvedIn hi, ← ht'.resolved]
    rfl
  have hpublishing : Publishing u rest v := by
    refine Publishing.of_respects (ht'.publishing.note (by simp) ?_) hi htv
    simp [World.note, calledIn]
  refine Safe.call fun w hw hvw c => ?_
  have hpublishing := hpublishing.of_respects hi hvw
  have hjustified : calledIn u w.history = resolvedIn u w.history ++ [event] := by
    rw [hvw.calledIn hi, hvw.resolvedIn hi, hcalled, hresolved]
  cases c.rejects with
  | none =>
      refine allows_noted wiring hX hi hw (.inl rfl) ⟨⟨rest, hpublishing⟩, hjustified⟩
        fun x _ hx => Settled.of_respects ⟨hpublishing.note (by simp) ?_, ?_, ?_⟩ hi hx
      · simp [World.note, calledIn]
      · simp [World.note, calledIn, hvw.calledIn hi, hcalled]
      · simp [World.note, resolvedIn, hvw.resolvedIn hi, hresolved]
  | some error =>
      simp only [Segment.wp_bind, note, Segment.wp_modify, Segment.wp_raise]
      exact allows_noted wiring hX hi hw (.inl rfl) ⟨⟨rest, hpublishing⟩, hjustified⟩
        fun x _ hx => hx.mem List.mem_cons_self

/-- Marking the outbox entries is best effort. -/
theorem onEventsDispatched_safe {E : Err → World J → Prop} {events : List (Event J)}
    (hX : X (.unit u)) (hi : u.owner = i) (hs : Inv wiring s) (h : Settled u events [] s) :
    Safe (protocol wiring X) i (fun _ => Settled u events []) E
      (onEventsDispatched wiring events) s := by
  unfold onEventsDispatched
  dsimp only
  split
  · refine Safe.tryCatch hs (Safe.call fun t ht hst c => ?_)
    have ht' := h.of_respects hi hst
    cases c.rejects with
    | some error =>
        refine allows_idle wiring hX hi ht fun v _ htv => ?_
        intro w _ hvw
        exact (ht'.of_respects hi htv).of_respects hi hvw
    | none =>
        have hmark : Step wiring (.unit u) t { t with
            outboxStore := t.outboxStore.markPublishedByEventIds c.now
              ((calledIn u t.history).filterMap Event.eventId?) } :=
          .markedBatch ht'.publishing (ht'.resolved.trans ht'.called.symm)
        rw [ht'.called] at hmark
        simp only [Segment.wp_modify]
        refine allows wiring hX hi ht hmark fun v _ htv => ?_
        refine Settled.of_respects ?_ hi htv
        exact ⟨⟨ht'.publishing.committed, ht'.publishing.accepted, ht'.publishing.hooks⟩,
          ht'.called, ht'.resolved⟩
  · exact Safe.pure fun t _ hst => h.of_respects hi hst

theorem publish_safe {events : List (Event J)} (hX : X (.unit u)) (hi : u.owner = i)
    (hs : Inv wiring s) (h : Settled u [] events s) :
    Safe (protocol wiring X) i (fun _ => Settled u events [])
      (fun e t => ∃ event, .dispatchRejected (some u) event e ∈ t.history)
      (publish wiring u events) s := by
  refine Safe.bind hs ((Safe.forEach (I := fun rest t => ∃ done, done ++ rest = events ∧
    Settled u done rest t) hs ⟨[], rfl, h⟩ ?_ ?_).mono ?_ fun _ _ _ h => h)
  · rintro event rest t ht ⟨done, hevents, hsettled⟩
    refine (busDispatch_safe wiring hX hi ht hsettled).mono ?_ fun e _ _ he => ⟨event, he⟩
    exact fun _ v _ hv => ⟨done ++ [event], by simp [hevents], hv⟩
  · rintro rest t v _ htv ⟨done, hevents, hsettled⟩
    exact ⟨done, hevents, hsettled.of_respects hi htv⟩
  · rintro _ t ht ⟨done, hevents, hsettled⟩
    obtain rfl : done = events := by simpa using hevents
    exact onEventsDispatched_safe wiring hX hi ht hsettled

end Publish

end Noddde
