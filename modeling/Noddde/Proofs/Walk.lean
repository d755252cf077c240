import Noddde.Proofs.Invariant
/-!
# The steps of one dispatch

A walk through the lifecycle of a command: every segment is a `Step`, and what the
steps of the dispatch need to know of each other is carried along.
-/

namespace Noddde

open Async

variable {J Infra : Type} (wiring : Wiring J Infra)

/-! ## The protocol -/

/-- A step leaves alone what concerns the thread `i`. -/
structure Respects (i : Tid) (s t : World J) : Prop where
  grows : s.history <:+ t.history
  stays : ∀ u, u.owner = i → Stays u s t
  about : ∀ x, x.tid = i → about x t.history = about x s.history

namespace Respects

variable {i : Tid} {s t v : World J}

theorem refl (i : Tid) (s : World J) : Respects i s s :=
  ⟨List.suffix_rfl, fun u _ => .refl u s, fun _ _ => rfl⟩

theorem trans (hst : Respects i s t) (htv : Respects i t v) : Respects i s v where
  grows := hst.grows.trans htv.grows
  stays u hu := (hst.stays u hu).trans (htv.stays u hu)
  about x hx := (htv.about x hx).trans (hst.about x hx)

theorem mem (h : Respects i s t) {o : Obs J} (ho : o ∈ s.history) : o ∈ t.history :=
  h.grows.subset ho

theorem notMem (h : Respects i s t) {o : Obs J} {x : Subject} (hx : x.tid = i)
    (hsubject : o.subject = some x) (ho : o ∉ s.history) : o ∉ t.history := by
  rw [← mem_about hsubject] at ho ⊢
  rwa [h.about x hx]

theorem fresh (h : Respects i s t) {d : Origin} (hd : d.tid = i) (hfresh : Fresh d s) :
    Fresh d t where
  uncalled := by rw [h.about (.call d) hd, hfresh.uncalled]
  noted := by rw [h.about (.dispatch d) hd, hfresh.noted]
  unlocked := by rw [h.about (.lock d) hd, hfresh.unlocked]
  unused k := by rw [(h.stays (.attempt d k) hd).implicit rfl, hfresh.unused]

theorem ready (h : Respects i s t) {d : Origin} {k : Nat} (hd : d.tid = i)
    (hready : Ready d k s) : Ready d k t where
  failed j hj := by rw [(h.stays (.attempt d j) hd).outcome, hready.failed j hj]
  unused j hj := by rw [(h.stays (.attempt d j) hd).implicit rfl, hready.unused j hj]
  unsettled e := h.notMem (x := .call d) hd rfl (hready.unsettled e)

theorem ended (h : Respects i s t) {d : Origin} (hd : d.tid = i) (hover : Over d s) :
    Over d t := fun k => by
  rw [(h.stays (.attempt d k) hd).created, (h.stays (.attempt d k) hd).outcome]
  exact hover k

end Respects

theorem Step.respects [JsValue J] {x : Subject} {i : Tid} {s t : World J}
    (h : Step wiring x s t) (hi : x.tid ≠ i) : Respects i s t where
  grows := h.adds.grows
  stays u hu := h.stays fun hx => hi (by rw [hx]; exact hu)
  about y hy := h.adds.about fun hx => hi (hx ▸ hy)

/-- Every thread makes steps for subjects of its own, among those in `X`. -/
def protocol [JsValue J] (X : Subject → Prop) : Protocol Tid (World J) where
  fact _ _ := True
  inv := Inv wiring
  rely := Respects
  guar i s t := ∃ x, X x ∧ x.tid = i ∧ Step wiring x s t
  rely_refl := .refl
  rely_trans _ _ _ _ hst htu := hst.trans htu
  guar_rely hij := by
    rintro ⟨x, -, rfl, h⟩
    exact h.respects wiring hij

section Rules

variable [JsValue J] {X : Subject → Prop} {i : Tid} {x : Subject} {s t : World J}
  {R : World J → Prop}

theorem allows (hX : X x) (hi : x.tid = i) (hs : Inv wiring s) (h : Step wiring x s t)
    (hR : ∀ v, Inv wiring v → Respects i t v → R v) :
    (protocol wiring X).Allows i R s t :=
  fun _ => ⟨hs.step h, ⟨x, hX, hi, h⟩, hR⟩

theorem allows_idle (hX : X x) (hi : x.tid = i) (hs : Inv wiring s)
    (hR : ∀ v, Inv wiring v → Respects i s v → R v) :
    (protocol wiring X).Allows i R s s :=
  allows wiring hX hi hs .idle hR

theorem allows_noted {o : Obs J} (hX : X x) (hi : x.tid = i) (hs : Inv wiring s)
    (ho : o.subject = some x ∨ o.subject = none) (hjustified : Justified wiring s o)
    (hR : ∀ v, Inv wiring v → Respects i (s.note o) v → R v) :
    (protocol wiring X).Allows i R s (s.note o) :=
  allows wiring hX hi hs (.noted ho hjustified) hR

/-- A program that serves fewer subjects, and steps on these keep `I`. -/
theorem narrow {α : Type} {Y : Subject → Prop} {Q : α → World J → Prop}
    {E : Err → World J → Prop} {p : Eff J Infra α} {I : World J → Prop}
    (h : Safe (protocol wiring Y) i Q E p s) (hX : ∀ x, Y x → X x) (hI : I s)
    (hkept : ∀ x t u, Y x → Inv wiring t → Step wiring x t u → I t → I u)
    (hstable : ∀ t u, Respects i t u → I t → I u) :
    Safe (protocol wiring X) i (fun a t => Q a t ∧ I t) (fun e t => E e t ∧ I t) p s := by
  refine h.narrow hI (fun _ _ _ => trivial) (fun _ h => h) (fun _ _ h => h) ?_
    fun t u _ h => hstable t u h
  rintro t u ht hu ⟨x, hx, hi, hstep⟩ hIt
  exact ⟨hu, ⟨x, hX x hx, hi, hstep⟩, hkept x t u hx ht hstep hIt⟩

end Rules

/-! ## Reading what concerns a subject -/

theorem about_note (x : Subject) (o : Obs J) (s : World J) :
    about x (s.note o).history =
      if o.subject = some x then o :: about x s.history else about x s.history := by
  by_cases ho : o.subject = some x
  · simp [about, World.note, ho]
  · simp [about, World.note, ho]

theorem about_note_self {x : Subject} {o : Obs J} (s : World J) (ho : o.subject = some x) :
    about x (s.note o).history = o :: about x s.history := by
  rw [about_note, if_pos ho]

theorem about_note_ne {x : Subject} {o : Obs J} (s : World J) (ho : o.subject ≠ some x) :
    about x (s.note o).history = about x s.history := by
  rw [about_note, if_neg ho]

theorem Guarded.mono {task : Task J} {u : UowRef} {h h' : List (Obs J)}
    (hg : Guarded wiring task u h) (hsub : h ⊆ h')
    (hlock : about (.lock task.dispatch) h' = about (.lock task.dispatch) h)
    (hcall : about (.call task.dispatch) h' = about (.call task.dispatch) h) :
    Guarded wiring task u h' := by
  intro timeoutMs hpessimistic
  obtain ⟨hgranted, hunsettled, hheld⟩ := hg timeoutMs hpessimistic
  refine ⟨hgranted.imp (fun h => hsub h) fun h => hsub h, fun e => ?_, ?_⟩
  · rw [← mem_about (x := .call task.dispatch) rfl, hcall, mem_about rfl]
    exact hunsettled e
  cases hjoined : u.joined with
  | none =>
      simp only [hjoined] at hheld ⊢
      rw [← mem_about (x := .lock task.dispatch) rfl] at hheld ⊢
      rwa [hlock]
  | some uow =>
      simp only [hjoined] at hheld ⊢
      exact hsub hheld

/-! ## Locks -/

/-- All that the thread of `ticket` has observed of its lock is that it asked for it. -/
def Asked (ticket : Ticket) (key : String) (w : World J) : Prop :=
  ∀ o ∈ about (.lock ticket.dispatch) w.history,
    o = .acquireCalled ticket key ∨ o = .lockGranted ticket key ∨ o = .lockTimedOut ticket key

theorem Asked.of_respects {ticket : Ticket} {key : String} {i : Tid} {s t : World J}
    (hi : ticket.dispatch.tid = i) (h : Respects i s t) (hs : Asked ticket key s) :
    Asked ticket key t := by
  unfold Asked
  rwa [h.about (.lock ticket.dispatch) hi]

section Locks

variable [JsValue J] {X : Subject → Prop} {i : Tid} {s : World J} {task : Task J}
  {uow : Option UowRef} {timeoutMs : Option Nat}

theorem waiting_safe (hX : X (.lock task.dispatch)) (hi : task.dispatch.tid = i)
    (hasked : about (.lock task.dispatch) s.history =
      [.acquireCalled ⟨task.dispatch, uow⟩ task.key]) :
    Safe (protocol wiring X) i
      (fun _ t => Granted ⟨task.dispatch, uow⟩ task.key t.history ∧
        Asked ⟨task.dispatch, uow⟩ task.key t)
      (fun _ t => .lockTimedOut ⟨task.dispatch, uow⟩ task.key ∈ t.history ∧
        Asked ⟨task.dispatch, uow⟩ task.key t)
      (Async.await (Locker.waiting ⟨task.dispatch, uow⟩ task.aggregateName task.aggregateId
        timeoutMs) : Eff J Infra Unit) s := by
  refine Safe.await fun t ht hst c r v hact => ?_
  have habout : about (.lock task.dispatch) t.history =
      [.acquireCalled ⟨task.dispatch, uow⟩ task.key] := by
    rw [hst.about (.lock task.dispatch) hi, hasked]
  have hcalled : .acquireCalled ⟨task.dispatch, uow⟩ task.key ∈ t.history := by
    rw [← mem_about (x := .lock task.dispatch) rfl, habout]
    exact List.mem_singleton_self _
  unfold Locker.waiting at hact
  dsimp only at hact
  split at hact
  · rename_i hqueued
    cases timeoutMs with
    | none => simp at hact
    | some timeoutMs =>
        dsimp only at hact
        split at hact
        · obtain ⟨rfl, rfl⟩ := by simpa using hact
          refine allows wiring hX hi ht (.timedOut hqueued hcalled) fun w _ hw => ⟨?_, ?_⟩
          · exact hw.mem List.mem_cons_self
          · refine Asked.of_respects hi hw fun o ho => ?_
            rw [about_note_self _ rfl] at ho
            change o ∈ _ :: about (.lock task.dispatch) t.history at ho
            rw [habout] at ho
            simp only [List.mem_cons, List.not_mem_nil, or_false] at ho
            exact ho.elim (fun h => .inr (.inr h)) .inl
        · simp at hact
  · rename_i hqueued
    obtain ⟨rfl, rfl⟩ := by simpa using hact
    refine allows_noted wiring hX hi ht (.inl rfl) ⟨hcalled, hqueued, ?_⟩ fun w _ hw =>
      ⟨?_, ?_⟩
    · rw [← mem_about (x := .lock task.dispatch) rfl, habout]
      simp
    · exact .inr (hw.mem List.mem_cons_self)
    · refine Asked.of_respects hi hw fun o ho => ?_
      rw [about_note_self _ rfl, habout] at ho
      simp only [List.mem_cons, List.not_mem_nil, or_false] at ho
      exact ho.elim (fun h => .inr (.inl h)) .inl

omit [JsValue J] in
theorem Locker.enter_about (ticket : Ticket) (aggregateName : String) (aggregateId : ID)
    (s : World J) : about (.lock ticket.dispatch)
      (Locker.enter ticket aggregateName aggregateId s).2.history =
        .acquireCalled ticket (compositeKey aggregateName aggregateId) ::
          about (.lock ticket.dispatch) s.history := by
  unfold Locker.enter
  dsimp only
  split
  · rw [about_note_ne _ (by simp [Obs.subject])]
    exact about_note_self _ rfl
  · exact about_note_self _ rfl

omit [JsValue J] in
theorem Locker.enter_acquired {ticket : Ticket} {aggregateName : String} {aggregateId : ID}
    {s : World J} (h : (Locker.enter ticket aggregateName aggregateId s).1 = .ok true) :
    .acquired ticket (compositeKey aggregateName aggregateId) ∈
      (Locker.enter ticket aggregateName aggregateId s).2.history := by
  unfold Locker.enter at h ⊢
  dsimp only at h ⊢
  split at h
  · rw [if_pos (by assumption)]
    exact List.mem_cons_self
  · simp at h

omit [JsValue J] in
theorem Locker.enter_ok (ticket : Ticket) (aggregateName : String) (aggregateId : ID)
    (s : World J) : ∃ entered, (Locker.enter ticket aggregateName aggregateId s).1 =
      .ok entered := by
  unfold Locker.enter
  dsimp only
  split <;> exact ⟨_, rfl⟩

theorem acquire_safe (hX : X (.lock task.dispatch)) (hi : task.dispatch.tid = i)
    (hs : Inv wiring s) (hbegun : .started task uow ∈ s.history)
    (hpessimistic : wiring.concurrency.resolve task.aggregateName = .pessimistic timeoutMs)
    (hfresh : about (.lock task.dispatch) s.history = [])
    (hunsettled : ∀ e, .settled task.dispatch e ∉ s.history) :
    Safe (protocol wiring X) i
      (fun _ t => Granted ⟨task.dispatch, uow⟩ task.key t.history ∧
        Asked ⟨task.dispatch, uow⟩ task.key t)
      (fun _ t => .lockTimedOut ⟨task.dispatch, uow⟩ task.key ∈ t.history ∧
        Asked ⟨task.dispatch, uow⟩ task.key t)
      (Locker.acquire ⟨task.dispatch, uow⟩ task.aggregateName task.aggregateId
        timeoutMs : Eff J Infra Unit) s := by
  refine Safe.bind hs (Safe.call fun t ht hst _ => ?_)
  have habout : about (.lock task.dispatch) t.history = [] := by
    rw [hst.about (.lock task.dispatch) hi, hfresh]
  have hfirst : ∀ key, .acquireCalled ⟨task.dispatch, uow⟩ key ∉ t.history := fun key => by
    rw [← mem_about (x := .lock task.dispatch) rfl, habout]
    simp
  refine allows wiring hX hi ht (.entered (hst.mem hbegun) hpessimistic hfirst fun e =>
    hst.notMem (x := .call task.dispatch) hi rfl (hunsettled e)) fun v hv htv => ?_
  have hcalled : about (.lock task.dispatch) v.history =
      [.acquireCalled ⟨task.dispatch, uow⟩ task.key] := by
    have hentered := Locker.enter_about ⟨task.dispatch, uow⟩ task.aggregateName
      task.aggregateId t
    rw [habout] at hentered
    rw [htv.about (.lock task.dispatch) hi]
    exact hentered
  obtain ⟨entered, hentered⟩ := Locker.enter_ok ⟨task.dispatch, uow⟩ task.aggregateName
    task.aggregateId t
  rw [hentered]
  cases entered with
  | true =>
      simp only [Outcome, if_true]
      refine Safe.pure fun w _ hvw => ⟨.inl ?_, ?_⟩
      · exact hvw.mem (htv.mem (Locker.enter_acquired hentered))
      · refine Asked.of_respects hi hvw fun o ho => ?_
        rw [hcalled] at ho
        exact .inl (List.mem_singleton.mp ho)
  | false => exact waiting_safe wiring hX hi hcalled

end Locks

/-! ## The lifecycle -/

theorem contributionsIn_note {x : Subject} {o : Obs J} {s : World J}
    (ho : ∀ task u loaded newEvents events, o ≠ .contributed task u loaded newEvents events) :
    contributionsIn wiring (about x (s.note o).history) =
      contributionsIn wiring (about x s.history) := by
  rw [about_note]
  split
  · cases o with
    | contributed => exact absurd rfl (ho _ _ _ _ _)
    | _ => rfl
  · rfl

/-- The lifecycle of `task` on `u` is under way; it has not contributed, but for
attempts that failed. -/
structure Proceeds (task : Task J) (u : UowRef) (w : World J) : Prop where
  begun : Begun task u w.history
  guarded : Guarded wiring task u w.history
  unsettled : ∀ e, .settled task.dispatch e ∉ w.history
  blank : u.implicit = true → (w.uows u).operations = [] ∧ (w.uows u).pendingEvents = [] ∧
    (w.uows u).completed = false
  tries : u.implicit = false → ∀ complete ∈ contributionsIn wiring
    (about (.lifecycle task.dispatch u) w.history), ¬ complete
  once : u.implicit = false → ∀ timeoutMs,
    wiring.concurrency.resolve task.aggregateName = .pessimistic timeoutMs →
      contributionsIn wiring (about (.lifecycle task.dispatch u) w.history) = []
  created : u.implicit = true → (w.uows u).created = true

structure Failed (task : Task J) (u : UowRef) (w : World J) : Prop where
  isOpen : u.implicit = true → (w.uows u).completed = false
  tries : u.implicit = false → ∀ complete ∈ contributionsIn wiring
    (about (.lifecycle task.dispatch u) w.history), ¬ complete

structure Contributed (task : Task J) (u : UowRef)
    (snapshotResult : Option (PendingSnapshot J)) (w : World J) : Prop where
  begun : Begun task u w.history
  isOpen : u.implicit = true → (w.uows u).operations ≠ [] ∧ (w.uows u).completed = false
  last : u.implicit = false → ∃ complete earlier,
    contributionsIn wiring (about (.lifecycle task.dispatch u) w.history) =
      complete :: earlier ∧ complete ∧ ∀ incomplete ∈ earlier, ¬ incomplete
  asked : ∀ pending ∈ snapshotResult, Pending wiring task u pending w.history

section Lifecycle

variable {X : Subject → Prop} {i : Tid} {s t : World J} {task : Task J} {u : UowRef}

theorem Begun.tid {h : List (Obs J)} (hbegun : Begun task u h) :
    (Subject.lifecycle task.dispatch u).tid = task.dispatch.tid := by
  unfold Subject.lifecycle
  split
  · obtain ⟨k, rfl⟩ := hbegun.2 ‹_›
    rfl
  · rfl

theorem Begun.of_respects (hbegun : Begun task u s.history) (h : Respects i s t) :
    Begun task u t.history :=
  ⟨h.mem hbegun.1, hbegun.2⟩

theorem Begun.uow_eq (hbegun : Begun task u s.history) (hi : task.dispatch.tid = i)
    (h : Respects i s t) (hu : u.implicit = true) : t.uows u = s.uows u := by
  obtain ⟨k, rfl⟩ := hbegun.2 hu
  exact (h.stays (.attempt task.dispatch k) hi).implicit rfl

variable {wiring}

theorem Proceeds.of_respects (hp : Proceeds wiring task u s) (hi : task.dispatch.tid = i)
    (h : Respects i s t) : Proceeds wiring task u t where
  begun := hp.begun.of_respects h
  guarded := hp.guarded.mono wiring h.grows.subset (h.about (.lock task.dispatch) hi)
    (h.about (.call task.dispatch) hi)
  unsettled e := h.notMem (x := .call task.dispatch) hi rfl (hp.unsettled e)
  blank hu := by
    rw [hp.begun.uow_eq hi h hu]
    exact hp.blank hu
  tries := by
    rw [h.about _ (hp.begun.tid.trans hi)]
    exact hp.tries
  once := by
    rw [h.about _ (hp.begun.tid.trans hi)]
    exact hp.once
  created hu := by
    rw [hp.begun.uow_eq hi h hu]
    exact hp.created hu

theorem Proceeds.loads (hp : Proceeds wiring task u s) : Loads wiring task u s :=
  ⟨hp.begun, hp.guarded, hp.created, fun hu => (hp.blank hu).2.2⟩

theorem Proceeds.failed (hp : Proceeds wiring task u s) : Failed wiring task u s :=
  ⟨fun hu => (hp.blank hu).2.2, hp.tries⟩

/-- An observation of the lifecycle other than a contribution. -/
theorem Proceeds.note {o : Obs J} (hp : Proceeds wiring task u s)
    (ho : o.subject = some (.lifecycle task.dispatch u))
    (hcontributed : ∀ task u loaded newEvents events,
      o ≠ .contributed task u loaded newEvents events) :
    Proceeds wiring task u (s.note o) where
  begun := ⟨List.mem_cons_of_mem _ hp.begun.1, hp.begun.2⟩
  guarded := hp.guarded.mono wiring (List.subset_cons_self o s.history)
    (about_note_ne s (by rw [ho]; unfold Subject.lifecycle; split <;> simp))
    (about_note_ne s (by rw [ho]; unfold Subject.lifecycle; split <;> simp))
  unsettled e hmem := by
    refine hp.unsettled e ((List.mem_cons.mp hmem).resolve_left ?_)
    rintro rfl
    unfold Subject.lifecycle at ho
    split at ho <;> cases ho
  blank := hp.blank
  tries := by
    rw [contributionsIn_note wiring hcontributed]
    exact hp.tries
  once := by
    rw [contributionsIn_note wiring hcontributed]
    exact hp.once
  created := hp.created

theorem Failed.of_respects (hf : Failed wiring task u s) (hbegun : Begun task u s.history)
    (hi : task.dispatch.tid = i) (h : Respects i s t) : Failed wiring task u t where
  isOpen hu := by
    rw [hbegun.uow_eq hi h hu]
    exact hf.isOpen hu
  tries := by
    rw [h.about _ (hbegun.tid.trans hi)]
    exact hf.tries

theorem Pending.mono {pending : PendingSnapshot J} {h h' : List (Obs J)} (hh : h ⊆ h')
    (hp : Pending wiring task u pending h) : Pending wiring task u pending h' := by
  obtain ⟨loaded, newEvents, events, hsourced, hmem, hrest⟩ := hp
  exact ⟨loaded, newEvents, events, hsourced, hh hmem, hrest⟩

theorem Contributed.of_respects {snapshotResult : Option (PendingSnapshot J)}
    (hc : Contributed wiring task u snapshotResult s) (hi : task.dispatch.tid = i)
    (h : Respects i s t) : Contributed wiring task u snapshotResult t where
  begun := hc.begun.of_respects h
  isOpen hu := by
    rw [hc.begun.uow_eq hi h hu]
    exact hc.isOpen hu
  last := by
    rw [h.about _ (hc.begun.tid.trans hi)]
    exact hc.last
  asked pending hpending := (hc.asked pending hpending).mono h.grows.subset

variable [JsValue J]

variable (wiring) in
theorem allows_lifecycle {o : Obs J} {R : World J → Prop}
    (hX : X (.lifecycle task.dispatch u)) (hi : task.dispatch.tid = i) (hs : Inv wiring s)
    (hp : Proceeds wiring task u s) (ho : o.subject = some (.lifecycle task.dispatch u))
    (hcontributed : ∀ task u loaded newEvents events,
      o ≠ .contributed task u loaded newEvents events)
    (hjustified : Justified wiring s o)
    (hR : ∀ v, Proceeds wiring task u v → o ∈ v.history → R v) :
    (protocol wiring X).Allows i R s (s.note o) :=
  allows_noted wiring hX (hp.begun.tid.trans hi) hs (.inl ho) hjustified fun v _ hv =>
    hR v ((hp.note ho hcontributed).of_respects hi hv) (hv.mem List.mem_cons_self)

variable (wiring)

theorem loadSnapshot_safe (hX : X (.lifecycle task.dispatch u))
    (hi : task.dispatch.tid = i) (hs : Proceeds wiring task u s) :
    Safe (protocol wiring X) i
      (fun snapshot t => Proceeds wiring task u t ∧
        ∀ found ∈ snapshot, .loadedSnapshot task u (some found) ∈ t.history)
      (fun _ => Failed wiring task u) (loadSnapshot wiring task u) s := by
  unfold loadSnapshot
  split
  · exact Safe.pure fun t _ hst => ⟨hs.of_respects hi hst, by simp⟩
  · rename_i strategy hstrategy
    refine Safe.call fun t ht hst _ => ?_
    have hp := hs.of_respects hi hst
    simp only [Segment.wp_bind, Segment.wp_read, note, Segment.wp_modify, Segment.wp_pure]
    refine allows_lifecycle wiring hX hi ht hp rfl (by simp)
      ⟨hp.loads, rfl, strategy, hstrategy⟩ fun v hv hmem => ⟨hv, ?_⟩
    intro found hfound
    rwa [Option.mem_def.mp hfound] at hmem

theorem rebuildState_allows {t : World J} {start : J} {base : Nat}
    (hX : X (.lifecycle task.dispatch u)) (hi : task.dispatch.tid = i) (ht : Inv wiring t)
    (hp : Proceeds wiring task u t) {partialLoad : Bool}
    (hpersistence : wiring.persistence task.aggregateName = some (.eventSourced partialLoad))
    (hbase : start = (task.aggregate wiring).initialState ∧ base = 0 ∨
      .loadedSnapshot task u (some ⟨start, base⟩) ∈ t.history) :
    (rebuildState wiring task u start base
      ((t.eventStore.load task.aggregateName task.aggregateId).drop base)).wp
      (fun r => (protocol wiring X).Allows i (Outcome
        (fun loaded v => Proceeds wiring task u v ∧ LoadedBy task u loaded v.history)
        (fun _ => Failed wiring task u) r) t) t := by
  simp only [rebuildState, Segment.wp_bind, Segment.wp_read, note, Segment.wp_modify,
    Segment.wp_ofExcept]
  refine allows_lifecycle wiring hX hi ht hp rfl (by simp)
    ⟨hp.loads, ⟨partialLoad, hpersistence⟩, rfl, start, base, hbase, rfl⟩
    fun v hv hmem => ?_
  cases hreplay : (task.aggregate wiring).replayFrom start
      ((t.eventStore.load task.aggregateName task.aggregateId).drop base) with
  | error e => exact hv.failed
  | ok currentState =>
      rw [hreplay] at hmem
      exact ⟨hv, .inl ⟨_, hmem⟩⟩

theorem load_safe {persistence : PersistenceKind} (hX : X (.lifecycle task.dispatch u))
    (hi : task.dispatch.tid = i)
    (hpersistence : wiring.persistence task.aggregateName = some persistence)
    (hs : Inv wiring s) (hp : Proceeds wiring task u s) :
    Safe (protocol wiring X) i
      (fun loaded t => Proceeds wiring task u t ∧ LoadedBy task u loaded t.history)
      (fun _ => Failed wiring task u) (load wiring task u persistence) s := by
  refine Safe.bind hs ((loadSnapshot_safe wiring hX hi hp).mono ?_ fun _ _ _ h => h)
  rintro snapshot v hv ⟨hpv, hfound⟩
  refine Safe.call fun t ht hvt _ => ?_
  have hpt := hpv.of_respects hi hvt
  have hidle : ∀ e, (protocol wiring X).Allows i (Outcome
      (fun loaded v => Proceeds wiring task u v ∧ LoadedBy task u loaded v.history)
      (fun _ => Failed wiring task u) (.error e : Except Err (Loaded J))) t t := fun e =>
    allows_idle wiring hX (hpt.begun.tid.trans hi) ht fun w _ hw =>
      (hpt.of_respects hi hw).failed
  cases snapshot with
  | some snapshot =>
      have hmem : .loadedSnapshot task u (some ⟨snapshot.state, snapshot.version⟩) ∈
          t.history := hvt.mem (hfound snapshot rfl)
      cases persistence with
      | eventSourced partialLoad =>
          have hrebuild := rebuildState_allows wiring hX hi ht hpt hpersistence (.inr hmem)
          cases partialLoad with
          | true => exact hrebuild
          | false => exact hrebuild
      | stateStored =>
          simp only [loadAfterSnapshot, Segment.wp_bind, Segment.wp_read]
          split <;> exact hidle _
  | none =>
      cases persistence with
      | eventSourced partialLoad =>
          have hrebuild := rebuildState_allows wiring hX hi ht hpt hpersistence
            (.inl ⟨rfl, rfl⟩)
          rwa [List.drop_zero] at hrebuild
      | stateStored =>
          simp only [loadFully, Segment.wp_bind, Segment.wp_read, note, Segment.wp_modify,
            Segment.wp_pure]
          refine allows_lifecycle wiring hX hi ht hpt rfl (by simp)
            ⟨hpt.loads, hpersistence, _, rfl, rfl⟩ fun w hw hmem => ?_
          exact ⟨hw, .inr hmem⟩

theorem executeCommandHandler_safe {loaded : Loaded J}
    (hX : X (.lifecycle task.dispatch u)) (hi : task.dispatch.tid = i)
    (hp : Proceeds wiring task u s) (hloaded : LoadedBy task u loaded s.history) :
    Safe (protocol wiring X) i
      (fun newEvents t => Proceeds wiring task u t ∧ LoadedBy task u loaded t.history ∧
        .decided task u loaded.currentState (.ok newEvents) ∈ t.history)
      (fun _ => Failed wiring task u) (executeCommandHandler wiring task u loaded) s := by
  have hlater : ∀ {s t : World J}, s.history <:+ t.history → LoadedBy task u loaded s.history →
      LoadedBy task u loaded t.history := fun h =>
    Or.imp (fun ⟨stream, hmem⟩ => ⟨stream, h.subset hmem⟩) fun hmem => h.subset hmem
  unfold executeCommandHandler
  split
  · exact Safe.throw fun t _ hst => (hp.of_respects hi hst).failed
  · rename_i handler hhandler
    refine Safe.call fun t ht hst c => ?_
    have hpt := hp.of_respects hi hst
    have hloadedt := hlater hst.grows hloaded
    simp only [Segment.wp_bind, note, Segment.wp_modify, Segment.wp_ofExcept]
    refine allows_noted wiring hX (hpt.begun.tid.trans hi) ht (.inl rfl)
      ⟨hpt.begun, ⟨loaded, hloadedt, rfl⟩, handler, c.infra, hhandler, rfl⟩ fun v _ hv => ?_
    have hpv := (hpt.note (o := .decided task u loaded.currentState
      ((handler task.command loaded.currentState c.infra).map OneOrMany.toArray)) rfl
      (by simp)).of_respects hi hv
    have hmem := hv.mem (List.mem_cons_self (a := Obs.decided task u loaded.currentState
      ((handler task.command loaded.currentState c.infra).map OneOrMany.toArray)))
    cases hdecided : (handler task.command loaded.currentState c.infra).map
        OneOrMany.toArray with
    | error e => exact hpv.failed
    | ok newEvents =>
        rw [hdecided] at hmem
        exact ⟨hpv, hlater ((List.suffix_cons _ _).trans hv.grows) hloadedt, hmem⟩

omit [JsValue J] in
theorem contributionsIn_enlisted {d : Option Origin} (operations : List (Operation J))
    (h : List (Obs J)) :
    contributionsIn wiring ((operations.map (Obs.enlisted u d)).reverse ++ h) =
      contributionsIn wiring h := by
  rw [← List.map_reverse]
  induction operations.reverse with
  | nil => rfl
  | cons operation rest ih => exact ih

omit [JsValue J] in
theorem contributionsIn_contributed {c : Contribution J} {uuids : Nat} :
    contributionsIn wiring (about (.lifecycle task.dispatch u)
        (s.contributed wiring task u c uuids).history) =
      Completes wiring task c.loaded c.newEvents c.events ::
        contributionsIn wiring (about (.lifecycle task.dispatch u) s.history) := by
  have hall : ∀ o ∈ contributionNotes wiring task u c,
      o.subject = some (.lifecycle task.dispatch u) := by
    intro o ho
    simp only [contributionNotes, List.mem_append, List.mem_reverse, List.mem_map,
      List.mem_cons] at ho
    rcases ho with ⟨_, _, rfl⟩ | rfl | ⟨_, _, rfl⟩ <;> rfl
  have habout : about (.lifecycle task.dispatch u) (s.contributed wiring task u c uuids).history
      = contributionNotes wiring task u c ++
        about (.lifecycle task.dispatch u) s.history := by
    rw [World.history_contributed, about, List.filter_append,
      List.filter_eq_self.mpr fun o ho => by simpa using hall o ho]
    rfl
  rw [habout, contributionNotes, List.append_assoc, contributionsIn_enlisted, List.cons_append,
    contributionsIn, contributionsIn_enlisted]

omit [JsValue J] in
theorem evaluateSnapshot_isOk {loaded : Loaded J} {newEvents : List (Event J)}
    (newState : J) : (evaluateSnapshot wiring task loaded newEvents newState).isOk = true ↔
      (loaded.isEventSourced = true → ∀ strategy,
        wiring.snapshots task.aggregateName = some strategy →
          (strategy (loaded.version + newEvents.length) loaded.lastSnapshotVersion
            (loaded.version + newEvents.length - loaded.lastSnapshotVersion)).isOk = true) := by
  unfold evaluateSnapshot
  split
  · rename_i hsourced
    split
    · rename_i hnone
      simp [hnone, Except.isOk, Except.toBool]
    · rename_i strategy hstrategy
      simp only [hsourced, hstrategy, Option.some.injEq, forall_eq', forall_const]
      cases strategy (loaded.version + newEvents.length) loaded.lastSnapshotVersion
          (loaded.version + newEvents.length - loaded.lastSnapshotVersion) with
      | error e => simp [bind, Except.bind, Except.isOk, Except.toBool]
      | ok due => cases due <;> simp [bind, Except.bind, Except.isOk, Except.toBool]
  · rename_i hsourced
    simp [hsourced, Except.isOk, Except.toBool]

omit [JsValue J] in
/-- The snapshot that is asked for is that of the new state. -/
theorem evaluateSnapshot_pending {loaded : Loaded J} {newEvents : List (Event J)}
    {newState : J} {pending : PendingSnapshot J}
    (h : evaluateSnapshot wiring task loaded newEvents newState = .ok (some pending)) :
    loaded.isEventSourced = true ∧ pending =
      { aggregateName := task.aggregateName
        aggregateId := task.aggregateId
        snapshot := { state := newState, version := loaded.version + newEvents.length } } := by
  unfold evaluateSnapshot at h
  split at h
  · rename_i hsourced
    refine ⟨hsourced, ?_⟩
    split at h
    · simp at h
    · rename_i strategy _
      dsimp only at h
      cases hdue : strategy (loaded.version + newEvents.length) loaded.lastSnapshotVersion
          (loaded.version + newEvents.length - loaded.lastSnapshotVersion) with
      | error e => simp [hdue, bind, Except.bind] at h
      | ok due =>
          cases due with
          | false => simp [hdue, bind, Except.bind] at h
          | true => simpa [hdue, bind, Except.bind, eq_comm] using h
  · simp at h

theorem contribute_safe {loaded : Loaded J} {newEvents : List (Event J)} {ambient : Ambient}
    (hX : X (.lifecycle task.dispatch u)) (hi : task.dispatch.tid = i) (hs : Inv wiring s)
    (hp : Proceeds wiring task u s) (hloaded : LoadedBy task u loaded s.history)
    (hdecided : .decided task u loaded.currentState (.ok newEvents) ∈ s.history) :
    Safe (protocol wiring X) i (Contributed wiring task u) (fun _ => Failed wiring task u)
      (do
        let newState ← Async.call (contribute wiring task u ambient loaded newEvents)
        Async.ofExcept (evaluateSnapshot wiring task loaded newEvents newState) :
        Eff J Infra (Option (PendingSnapshot J))) s := by
  refine Safe.bind hs (Safe.call fun t ht hst c => ?_)
  have hpt := hp.of_respects hi hst
  refine contribute_wp wiring task (fun e uuids huuids => ?_)
    fun r c uuids hopen hcloaded hcevents hcomputed hextract hstate => ?_
  · refine allows wiring hX (hpt.begun.tid.trans hi) ht (.drawn huuids) fun v _ hv => ?_
    have hfailed : Failed wiring task u { t with uuids } :=
      ⟨hpt.failed.isOpen, hpt.failed.tries⟩
    exact hfailed.of_respects hpt.begun hi hv
  · subst hcloaded hcevents
    have hfirst : u.implicit = true →
        (t.uows u).operations = [] ∧ (t.uows u).pendingEvents = [] := fun hu =>
      ⟨(hpt.blank hu).1, (hpt.blank hu).2.1⟩
    have htriesd : u.implicit = false → ∀ complete ∈ contributionsIn wiring
        (about (.dispatch task.dispatch) t.history), ¬ complete := by
      intro hu
      have htries := hpt.tries hu
      rw [Subject.lifecycle, if_neg (by rw [hu]; exact Bool.false_ne_true)] at htries
      exact htries
    have honce : u.implicit = false → ∀ timeoutMs,
        wiring.concurrency.resolve task.aggregateName = .pessimistic timeoutMs →
          contributionsIn wiring (about (.dispatch task.dispatch) t.history) = [] := by
      intro hu
      have honce := hpt.once hu
      rw [Subject.lifecycle, if_neg (by rw [hu]; exact Bool.false_ne_true)] at honce
      exact honce
    have hcontributes : Contributes wiring task u c uuids t :=
      { begun := hpt.begun
        guarded := hpt.guarded
        unsettled := hpt.unsettled
        isOpen := hopen
        first := hfirst
        created := hpt.created
        tries := htriesd
        once := honce
        loaded := hloaded.imp (Exists.imp fun _ hmem => hst.mem hmem) fun hmem => hst.mem hmem
        decided := hst.mem hdecided
        computed := hcomputed }
    refine allows wiring hX (hpt.begun.tid.trans hi) ht (.contributed hcontributes)
      fun v _ hv => ?_
    have hbegun : Begun task u (t.contributed wiring task u c uuids).history := by
      refine ⟨?_, hpt.begun.2⟩
      rw [World.history_contributed]
      exact List.mem_append_right _ hpt.begun.1
    have huow : u.implicit = true → (v.uows u).operations ≠ [] ∧
        (v.uows u).completed = false := fun hu => by
      rw [hbegun.uow_eq hi hv hu, World.uows_contributed, Function.update_self]
      refine ⟨?_, hopen⟩
      simp only [Contribution.operations, claimsOf]
      split <;> simp
    have htries : contributionsIn wiring (about (.lifecycle task.dispatch u) v.history) =
        Completes wiring task c.loaded c.newEvents c.events ::
          contributionsIn wiring (about (.lifecycle task.dispatch u) t.history) := by
      rw [hv.about _ (hpt.begun.tid.trans hi), contributionsIn_contributed]
    have hfailed : ¬ Completes wiring task c.loaded c.newEvents c.events →
        Failed wiring task u v := fun hnot => by
      refine ⟨fun hu => (huow hu).2, ?_⟩
      rw [htries]
      intro hu complete hmem
      rcases List.mem_cons.mp hmem with rfl | hmem
      · exact hnot
      · exact hpt.tries hu complete hmem
    cases r with
    | error e =>
        exact hfailed fun hcompletes => by
          simpa [Except.isOk, Except.toBool] using hextract.mpr hcompletes.1
    | ok newState =>
        obtain rfl := hstate newState rfl
        refine Safe.ofExcept fun w _ hvw => ?_
        have hbegunv := hbegun.of_respects hv
        cases hsnapshot : evaluateSnapshot wiring task c.loaded c.newEvents c.newState with
        | error e =>
            refine (hfailed fun hcompletes => ?_).of_respects hbegunv hi hvw
            have hok := (evaluateSnapshot_isOk wiring c.newState).mpr hcompletes.2
            simp [hsnapshot, Except.isOk, Except.toBool] at hok
        | ok snapshotResult =>
            refine Contributed.of_respects ⟨hbegunv, huow, ?_, ?_⟩ hi hvw
            · refine fun hu => ⟨_, _, htries, ⟨hextract.mp rfl, ?_⟩, hpt.tries hu⟩
              refine (evaluateSnapshot_isOk wiring c.newState).mp ?_
              simp [hsnapshot, Except.isOk, Except.toBool]
            · intro pending hpending
              rw [Option.mem_def.mp hpending] at hsnapshot
              obtain ⟨hsourced, rfl⟩ := evaluateSnapshot_pending wiring hsnapshot
              refine ⟨c.loaded, c.newEvents, c.events, hsourced, ?_, rfl, rfl, rfl,
                hcomputed.evolved⟩
              refine hv.mem ?_
              rw [World.history_contributed]
              simp [contributionNotes]

theorem executeLifecycle_safe {persistence : PersistenceKind} {ambient : Ambient}
    (hX : X (.lifecycle task.dispatch u)) (hi : task.dispatch.tid = i)
    (hpersistence : wiring.persistence task.aggregateName = some persistence)
    (hs : Inv wiring s) (hp : Proceeds wiring task u s) :
    Safe (protocol wiring X) i (Contributed wiring task u) (fun _ => Failed wiring task u)
      (executeLifecycle wiring task u ambient persistence) s := by
  refine Safe.bind hs ((load_safe wiring hX hi hpersistence hs hp).mono ?_
    fun _ _ _ h => h)
  rintro loaded t ht ⟨hpt, hloaded⟩
  refine Safe.bind ht ((executeCommandHandler_safe wiring hX hi hpt hloaded).mono ?_
    fun _ _ _ h => h)
  rintro newEvents v hv ⟨hpv, hloaded, hdecided⟩
  exact contribute_safe wiring hX hi hv hpv hloaded hdecided

end Lifecycle

end Noddde
