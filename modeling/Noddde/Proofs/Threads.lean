import Noddde.Proofs.Scopes
/-!
# The steps of the threads of a process

Every thread of a process only makes steps of the transition system, whatever the other
threads do, and what its caller is told is what the history says.
-/

namespace Noddde

open Async

variable {J Infra : Type} (wiring : Wiring J Infra)

/-! ## Dispatches one after another -/

/-- The dispatches that a thread makes one after another, from the `k`-th on, are still
to come. -/
def FreshFrom (origin : Nat → Origin) (k : Nat) (w : World J) : Prop :=
  ∀ j, k ≤ j → Fresh (origin j) w

/-- The subjects of the dispatches of a thread. -/
def ServesAny (origin : Nat → Origin) (x : Subject) : Prop := ∃ k, Serves (origin k) x

section Sequences

variable {i : Tid} {s t : World J} {origin : Nat → Origin} {k : Nat} {u : UowRef}

theorem Fresh.step [JsValue J] {d : Origin} {x : Subject} (h : Fresh d s)
    (hstep : Step wiring x s t) (hx : ¬ Serves d x) : Fresh d t where
  uncalled := by
    rw [hstep.adds.about (y := .call d) (by rintro rfl; exact hx rfl), h.uncalled]
  noted := by
    rw [hstep.adds.about (y := .dispatch d) (by rintro rfl; exact hx rfl), h.noted]
  unlocked := by
    rw [hstep.adds.about (y := .lock d) (by rintro rfl; exact hx rfl), h.unlocked]
  unused k := by
    rw [(hstep.stays (u := .attempt d k) (by rintro rfl; exact hx rfl)).implicit rfl,
      h.unused k]

theorem FreshFrom.of_respects (h : FreshFrom origin k s) (hi : ∀ j, (origin j).tid = i)
    (hst : Respects i s t) : FreshFrom origin k t :=
  fun j hj => hst.fresh (hi j) (h j hj)

/-- Steps for a dispatch leave the later ones alone. -/
theorem FreshFrom.step [JsValue J] {x : Subject} (h : FreshFrom origin k s)
    (hstep : Step wiring x s t) (hx : ∀ j, k ≤ j → ¬ Serves (origin j) x) :
    FreshFrom origin k t :=
  fun j hj => (h j hj).step wiring hstep (hx j hj)

theorem Serves.injective {d d' : Origin} {x : Subject} (h : Serves d x) (h' : Serves d' x) :
    d = d' := by
  cases x with
  | call _ => exact h.symm.trans h'
  | dispatch _ => exact h.symm.trans h'
  | lock _ => exact h.symm.trans h'
  | unit v =>
      cases v with
      | attempt _ _ => exact h.symm.trans h'
      | scope _ => exact h.elim
      | saga _ => exact h.elim
  | poll _ => exact h.elim

/-- The dispatches of a thread do not serve its explicit unit of work. -/
theorem Serves.ne_unit {d : Origin} {x : Subject} (h : Serves d x) (hu : u.implicit = false) :
    x ≠ .unit u := by
  rintro rfl
  cases u with
  | attempt _ _ => simp [UowRef.implicit] at hu
  | scope _ => exact h
  | saga _ => exact h

variable [JsValue J] {X : Subject → Prop} {ambient : Ambient}

theorem dispatch_next_safe {task : Task J} (horigin : task.dispatch = origin k)
    (hinjective : Function.Injective origin)
    (hX : ∀ x, ServesAny origin x → X x) (hi : ∀ j, (origin j).tid = i) (hs : Inv wiring s)
    (h : FreshFrom origin k s) :
    Safe (protocol wiring X) i (fun _ => FreshFrom origin (k + 1))
      (fun _ => FreshFrom origin (k + 1)) (dispatch wiring task ambient) s := by
  have hfresh : Fresh task.dispatch s := by
    rw [horigin]
    exact h k le_rfl
  refine (narrow wiring (Y := Serves task.dispatch) (dispatch_safe wiring (fun _ h => h)
    (by rw [horigin]; exact hi k) hs hfresh) (fun x hx => hX x ⟨k, horigin ▸ hx⟩)
    (fun j hj => h j (by omega)) ?_ fun t v htv h => h.of_respects hi htv).mono
    (fun _ _ _ h => h.2) fun _ _ _ h => h.2
  intro x t v hx _ hstep h
  refine h.step wiring hstep fun j hj hserves => ?_
  have hjk := hinjective ((horigin ▸ hx : Serves (origin k) x).injective hserves)
  omega

theorem script_safe {n : Nat} (script : Script J) {index : Nat}
    (hX : ∀ x, ServesAny (Origin.scoped n) x → X x) (hs : Inv wiring s)
    (h : FreshFrom (Origin.scoped n) index s) :
    Safe (protocol wiring X) (.scope n) (fun _ _ => True) (fun _ _ => True)
      (script.run wiring n ambient index) s := by
  induction script generalizing index s with
  | dispatchCommand aggregateName command next ih =>
      refine Safe.bind hs ((Safe.attempt (E := fun _ _ => False)
        (Q := fun _ => FreshFrom (Origin.scoped n) (index + 1)) (dispatch_next_safe wiring rfl
          (fun a b hab => (Origin.scoped.inj hab).2) hX (fun _ => rfl) hs h)).mono
        (fun outcome t ht h => ih outcome ht h) fun _ _ _ h => h.elim)
  | settle => exact Safe.pure fun _ _ _ => trivial
  | reject error => exact Safe.throw fun _ _ _ => trivial

theorem dispatchCommands_safe {n : Nat} (commands : List (Command J))
    (hX : ∀ x, ServesAny (Origin.reaction n) x → X x) (hs : Inv wiring s)
    (h : FreshFrom (Origin.reaction n) 0 s) :
    Safe (protocol wiring X) (.saga n) (fun _ _ => True) (fun _ _ => True)
      (dispatchCommands wiring n ambient commands) s := by
  refine Safe.forEach_zipIdx (I := FreshFrom (Origin.reaction n)) hs h
    fun command k t ht h => ?_
  unfold dispatchReaction
  split
  · exact Safe.throw fun _ _ _ => trivial
  · exact (dispatch_next_safe wiring rfl (fun a b hab => (Origin.reaction.inj hab).2) hX
      (fun _ => rfl) ht h).mono (fun _ _ _ h => h) fun _ _ _ _ => trivial
  · refine Safe.call fun v hv htv c => ?_
    have hlater : FreshFrom (Origin.reaction n) (k + 1) v :=
      FreshFrom.of_respects (fun j hj => h j (by omega)) (fun _ => rfl) htv
    have hpoll : X (.call (.reaction n 0)) := hX _ ⟨0, rfl⟩
    cases c.rejects with
    | none =>
        exact allows_idle wiring hpoll rfl hv fun x _ hvx => hlater.of_respects (fun _ => rfl) hvx
    | some error => exact allows_idle wiring hpoll rfl hv fun _ _ _ => trivial

end Sequences

/-! ## Scopes and saga executions -/

section Owners

variable [JsValue J] {i : Tid} {s t : World J} {u : UowRef} {n : Nat} {ambient : Ambient}

/-- Nothing is known of `u` yet. -/
structure Uncreated (u : UowRef) (w : World J) : Prop where
  created : (w.uows u).created = false
  isOpen : (w.uows u).completed = false
  pending : (w.frames u).hooksRan = false
  noted : about (.unit u) w.history = []

/-- What the caller of the owner of `u` is told, once the hooks of `u` are done. -/
def Told (u : UowRef) (error : Option Err) (w : World J) : Prop :=
  (w.uows u).created = true → Reported u error w.history ∧ Drained u w.history

omit [JsValue J] in
theorem Uncreated.of_respects (h : Uncreated u s) (hi : u.owner = i) (hst : Respects i s t) :
    Uncreated u t where
  created := by rw [(hst.stays u hi).created, h.created]
  isOpen := by rw [(hst.stays u hi).completed, h.isOpen]
  pending := by rw [(hst.stays u hi).frame, h.pending]
  noted := by rw [hst.about (.unit u) hi, h.noted]

omit [JsValue J] in
theorem Uncreated.told (h : Uncreated u s) (error : Option Err) : Told u error s := fun hcreated =>
  by simp [h.created] at hcreated

omit [JsValue J] in
theorem Told.of_respects {error : Option Err} (h : Told u error s) (hi : u.owner = i)
    (hst : Respects i s t) : Told u error t := by
  intro hcreated
  rw [(hst.stays u hi).created] at hcreated
  exact ⟨(h hcreated).1.of_respects hi hst, (h hcreated).2.mono hst.grows⟩

theorem Settled.step {x : Subject} {done rest : List (Event J)}
    (h : Settled u done rest s) (hstep : Step wiring x s t) (hx : x ≠ .unit u) :
    Settled u done rest t := by
  have hcalled : calledIn u t.history = calledIn u s.history := by
    rw [← calledIn_about, hstep.adds.about hx.symm, calledIn_about]
  have hresolved : resolvedIn u t.history = resolvedIn u s.history := by
    rw [← resolvedIn_about, hstep.adds.about hx.symm, resolvedIn_about]
  refine ⟨⟨?_, fun event e hmem => ?_, fun hu => ?_⟩, hcalled.trans h.called,
    hresolved.trans h.resolved⟩
  · rw [hcalled]
    exact hstep.adds.grows.subset h.publishing.committed
  · rw [← mem_about (x := .unit u) rfl, hstep.adds.about hx.symm, mem_about rfl] at hmem
    exact h.publishing.accepted event e hmem
  · obtain ⟨within, hooks, hmem⟩ := h.publishing.hooks hu
    exact ⟨within, hooks, hstep.adds.grows.subset hmem⟩

/-- The creation of an explicit unit of work, and what its owner does with it. -/
theorem create_safe {p : Eff J Infra Unit} {F : World J → Prop} (hi : u.owner = i)
    (hu : u.implicit = false) (hs : Inv wiring s) (h : Uncreated u s) (hF : F s)
    (hstep : ∀ t v, Step wiring (.unit u) t v → F t → F v)
    (hrely : ∀ t v, Respects i t v → F t → F v)
    (hp : ∀ t, Inv wiring t → Opened u t → F t →
      Safe (protocol wiring fun _ => True) i
        (fun _ t => Reported u none t.history ∧ Drained u t.history)
        (fun e t => Reported u (some e) t.history ∧ Drained u t.history) p t) :
    Safe (protocol wiring fun _ => True) i (fun _ => Told u none) (fun e => Told u (some e))
      (do
        Async.call fun _ => createUow u
        p) s := by
  refine Safe.bind hs (Safe.call fun t ht hst _ => ?_)
  have ht' := h.of_respects hi hst
  have hcreates : Creates wiring u t := by
    cases u with
    | attempt _ _ => simp [UowRef.implicit] at hu
    | scope _ => exact ⟨ht'.created, ht'.noted⟩
    | saga _ => exact ⟨ht'.created, ht'.noted⟩
  have hcreated := Step.created hcreates
  simp only [createUow, Segment.wp_modify]
  refine allows (x := .unit u) wiring trivial hi ht hcreated fun v hv htv => ?_
  have hopened : Opened u v := by
    refine Opened.of_respects (s := t.setUow u fun uow => { uow with created := true })
      ⟨?_, fun e hmem => ?_, ht'.pending⟩ hi htv
    · rw [World.uows_setUow_self]
      exact ht'.isOpen
    · rw [← mem_about (x := .unit u) rfl] at hmem
      change _ ∈ about (.unit u) t.history at hmem
      simp [ht'.noted] at hmem
  exact (hp v hv hopened (hrely _ v htv (hstep t _ hcreated (hrely s t hst hF)))).mono
    (fun _ _ _ h _ => h) fun _ _ _ h _ => h

theorem withUnitOfWork_safe {script : Script J} (hs : Inv wiring s)
    (h : Uncreated (.scope n) s) (hfresh : FreshFrom (Origin.scoped n) 0 s) :
    Safe (protocol wiring fun _ => True) (.scope n) (fun _ => Told (.scope n) none)
      (fun e => Told (.scope n) (some e))
      (withUnitOfWork wiring ambient n fun ambient => script.run wiring n ambient 0) s := by
  unfold withUnitOfWork
  split
  · exact Safe.throw fun t _ hst => (h.of_respects rfl hst).told _
  · rename_i hnested
    have hunit : ∀ t v, Step wiring (.unit (.scope n)) t v → FreshFrom (Origin.scoped n) 0 t →
        FreshFrom (Origin.scoped n) 0 v := fun t v hstep h =>
      h.step wiring hstep fun _ _ hserves => hserves.ne_unit rfl rfl
    refine create_safe wiring rfl rfl hs h hfresh hunit
      (fun _ _ h hF => hF.of_respects (fun _ => rfl) h) fun t ht hopened hF => ?_
    refine settleAndPublish_safe wiring (F := fun _ => True) trivial rfl rfl ht ?_ ?_
      (fun _ _ _ _ => trivial) (fun _ _ _ _ => trivial) ?_
    · intro huow
      simp [huow] at hnested
    · refine (narrow wiring (Y := ServesAny (Origin.scoped n)) (script_safe wiring script
        (fun _ h => h) ht hF) (fun _ _ => trivial) hopened ?_
        fun v x hvx h => h.of_respects rfl hvx).mono (fun _ _ _ h => ⟨h.2, trivial⟩)
        fun _ _ _ h => h.2
      rintro x v v' ⟨k, hx⟩ _ hstep h
      exact h.step hstep (hx.ne_unit rfl)
    · exact fun v events _ _ hsettled => Safe.pure fun x _ hvx => hsettled.of_respects rfl hvx

theorem enlistSave_safe {sagaName : String} {sagaId : ID} {state : J} {expectedVersion : Nat}
    {F : World J → Prop} (hopened : Opened (.saga n) s) (hF : F s)
    (hstep : ∀ t v, Step wiring (.unit (.saga n)) t v → F t → F v)
    (hrely : ∀ t v, Respects (.saga n) t v → F t → F v) :
    Safe (protocol wiring fun _ => True) (.saga n)
      (fun _ t => Opened (.saga n) t ∧ F t) (fun _ => Opened (.saga n))
      (Async.call fun _ => enlist (.saga n) none
        (.saveSaga sagaName sagaId state expectedVersion) : Eff J Infra Unit) s := by
  refine Safe.call fun t ht hst _ => ?_
  have hopenedt := hopened.of_respects rfl hst
  have henlisted : Step wiring (.unit (.saga n)) t (t.enlistAll (.saga n) none
      [.saveSaga sagaName sagaId state expectedVersion]) := .enlistedSaga hopenedt.isOpen
  rw [enlist_wp, hopenedt.isOpen]
  refine allows wiring trivial rfl ht henlisted fun v _ htv => ⟨?_, ?_⟩
  · refine Opened.of_respects (s := t.enlistAll (.saga n) none
      [.saveSaga sagaName sagaId state expectedVersion]) ⟨?_, fun e => ?_, hopenedt.pending⟩
      rfl htv
    · rw [World.completed_enlistAll, hopenedt.isOpen]
    · simpa [World.enlistAll] using hopenedt.unsettled e
  · exact hrely _ v htv (hstep t _ henlisted (hrely s t hst hF))

theorem settleReaction_safe {mode : Atomicity} {sagaName : String} {sagaId : ID} {state : J}
    {expectedVersion : Nat} {sagaCtx : MetadataContext} {commands : List (Command J)}
    (hs : Inv wiring s) (hopened : Opened (.saga n) s)
    (hfresh : FreshFrom (Origin.reaction n) 0 s) (houtside : ambient.uow ≠ some (.saga n)) :
    Safe (protocol wiring fun _ => True) (.saga n)
      (fun _ t => Reported (.saga n) none t.history ∧ Drained (.saga n) t.history)
      (fun e t => Reported (.saga n) (some e) t.history ∧ Drained (.saga n) t.history)
      (settleReaction wiring ambient n mode (.saveSaga sagaName sagaId state expectedVersion)
        sagaCtx commands) s := by
  have hunit : ∀ t v, Step wiring (.unit (.saga n)) t v →
      FreshFrom (Origin.reaction n) 0 t → FreshFrom (Origin.reaction n) 0 v :=
    fun t v hstep h => h.step wiring hstep fun _ _ hserves => hserves.ne_unit rfl rfl
  have hrely : ∀ t v : World J, Respects (.saga n) t v →
      FreshFrom (Origin.reaction n) 0 t → FreshFrom (Origin.reaction n) 0 v :=
    fun t v h hF => hF.of_respects (fun _ => rfl) h
  -- the dispatches leave the unit of work of the execution open, or settled
  have hcommands : ∀ {t : World J} {ambient : Ambient} {I : World J → Prop}, Inv wiring t →
      FreshFrom (Origin.reaction n) 0 t → I t →
      (∀ x t v, x ≠ .unit (.saga n) → Step wiring x t v → I t → I v) →
      (∀ t v, Respects (.saga n) t v → I t → I v) →
      Safe (protocol wiring fun _ => True) (.saga n) (fun _ => I) (fun _ => I)
        (dispatchCommands wiring n ambient commands) t := by
    intro t ambient I ht hF hI hstep hrely
    refine (narrow wiring (Y := ServesAny (Origin.reaction n)) (dispatchCommands_safe wiring
      commands (fun _ h => h) ht hF) (fun _ _ => trivial) hI ?_ hrely).mono
      (fun _ _ _ h => h.2) fun _ _ _ h => h.2
    rintro x v v' ⟨k, hx⟩ _ h
    exact hstep x v v' (hx.ne_unit rfl) h
  unfold settleReaction
  cases mode with
  | bestEffort =>
      refine settleAndPublish_safe wiring trivial rfl rfl hs houtside
        (enlistSave_safe wiring hopened hfresh hunit hrely) hunit hrely ?_
      exact fun t events ht hF hsettled => hcommands ht hF hsettled
        (fun x t v hx hstep h => h.step wiring hstep hx) fun t v h hI => hI.of_respects rfl h
  | atomic =>
      refine settleAndPublish_safe wiring (F := fun _ => True) trivial rfl rfl hs houtside ?_
        (fun _ _ _ _ => trivial) (fun _ _ _ _ => trivial)
        fun v events _ _ hsettled => Safe.pure fun x _ hvx => hsettled.of_respects rfl hvx
      refine Safe.bind hs ((enlistSave_safe wiring hopened hfresh hunit hrely).mono ?_
        fun _ _ _ h => h)
      rintro _ t ht ⟨hopenedt, hF⟩
      exact (hcommands ht hF hopenedt (fun x t v hx hstep h => h.step hstep hx)
        fun t v h hI => hI.of_respects rfl h).mono (fun _ _ _ h => ⟨h, trivial⟩)
        fun _ _ _ h => h

theorem executeSaga_safe {sagaName : String} {event : Event J} (hs : Inv wiring s)
    (h : Uncreated (.saga n) s) (hfresh : FreshFrom (Origin.reaction n) 0 s)
    (houtside : ambient.uow ≠ some (.saga n)) :
    Safe (protocol wiring fun _ => True) (.saga n) (fun _ => Told (.saga n) none)
      (fun e => Told (.saga n) (some e)) (executeSaga wiring ambient n sagaName event) s := by
  have htold : ∀ {t v : World J}, Respects (.saga n) t v → Uncreated (.saga n) t →
      ∀ error, Told (.saga n) error v := fun hst h error =>
    (h.of_respects rfl hst).told error
  unfold executeSaga
  dsimp only
  split
  · exact Safe.pure fun t _ hst => htold hst h none
  · rename_i onEntry hon
    -- until the unit of work is created, only identifiers are drawn
    let I (t : World J) : Prop :=
      Uncreated (.saga n) t ∧ FreshFrom (Origin.reaction n) 0 t
    have hI : ∀ t v, Respects (.saga n) t v → I t → I v := fun t v hst h =>
      ⟨h.1.of_respects rfl hst, h.2.of_respects (fun _ => rfl) hst⟩
    have hidle : ∀ {α : Type} {Q : α → World J → Prop} {r : Except Err α} {t : World J},
        Inv wiring t → I t → (∀ a v, r = .ok a → Inv wiring v → I v → Q a v) →
        (protocol wiring fun _ => True).Allows (.saga n)
          (Outcome Q (fun e => Told (.saga n) (some e)) r) t t := by
      intro α Q r t ht hIt hQ
      refine allows_idle (x := .unit (.saga n)) wiring trivial rfl ht fun v hv htv => ?_
      cases r with
      | error e => exact (hI t v htv hIt).1.told _
      | ok a => exact hQ a v rfl hv (hI t v htv hIt)
    refine Safe.bind hs (Safe.ofExcept fun t ht hst => ?_)
    have hIt := hI s t hst ⟨h, hfresh⟩
    cases onEntry.id event with
    | error e => exact hIt.1.told _
    | ok sagaId =>
        refine Safe.bind ht (Safe.call fun v hv htv _ => ?_)
        simp only [Segment.wp_read]
        refine hidle hv (hI t v htv hIt) fun loaded x _ hx hIx => ?_
        split
        · exact Safe.pure fun y _ hxy => htold hxy hIx.1 none
        · rename_i currentState expectedVersion _
          refine Safe.bind hx (Safe.call fun y hy hxy c => ?_)
          simp only [Segment.wp_ofExcept]
          refine hidle hy (hI x y hxy hIx) fun reaction z _ hz hIz => ?_
          refine Safe.bind hz (Safe.call fun z' hz' hzz' _ => ?_)
          simp only [sagaContext, Segment.wp_bind, Segment.wp_pure]
          refine orUuid_wp wiring fun id uuids huuids => ?_
          refine allows wiring trivial rfl hz' (.drawn (x := .unit (.saga n)) huuids)
            fun a ha hza => ?_
          have hIa : I a := by
            refine hI _ a hza ?_
            have hIz' := hI z z' hzz' hIz
            exact ⟨⟨hIz'.1.created, hIz'.1.isOpen, hIz'.1.pending, hIz'.1.noted⟩,
              fun j hj => ⟨(hIz'.2 j hj).uncalled, (hIz'.2 j hj).noted, (hIz'.2 j hj).unlocked,
                (hIz'.2 j hj).unused⟩⟩
          exact create_safe wiring rfl rfl ha hIa.1 hIa.2
            (fun t v hstep h => h.step wiring hstep fun _ _ hserves => hserves.ne_unit rfl rfl)
            (fun _ _ h hF => hF.of_respects (fun _ => rfl) h)
            fun b hb hopened hF => settleReaction_safe wiring hb hopened hF houtside

end Owners

/-! ## The relay -/

section Relay

variable [JsValue J] {s t : World J} {n : Nat}

def Batch (entries : List (OutboxEntry J)) (w : World J) : Prop :=
  ∃ batch, .batchLoaded batch ∈ w.history ∧ ∀ entry ∈ entries, entry ∈ batch

omit [JsValue J] in
theorem Batch.mono {entries : List (OutboxEntry J)} (h : Batch entries s)
    (hst : s.history <:+ t.history) : Batch entries t := by
  obtain ⟨batch, hmem, hentries⟩ := h
  exact ⟨batch, hst.subset hmem, hentries⟩

theorem processEntry_safe {entry : OutboxEntry J} (hs : Inv wiring s) (h : Batch [entry] s) :
    Safe (protocol wiring fun _ => True) (.relay n) (fun _ _ => True) (fun _ _ => True)
      (processEntry entry : Eff J Infra Bool) s := by
  refine Safe.tryCatch hs (Safe.bind hs (Safe.bind hs (Safe.call fun t ht hst _ => ?_)))
  obtain ⟨batch, hbatch, hentry⟩ := h.mono hst.grows
  have hmem : entry ∈ batch := hentry entry (by simp)
  refine allows_noted (x := .poll n) wiring trivial rfl ht (.inr rfl)
    ⟨batch, hbatch, entry, hmem, rfl⟩ fun v hv htv => ?_
  have hcalled := htv.mem (List.mem_cons_self (a := Obs.dispatchCalled none entry.event))
  refine Safe.call fun x hx hvx c => ?_
  cases c.rejects with
  | some error =>
      simp only [Segment.wp_bind, note, Segment.wp_modify, Segment.wp_raise]
      exact allows_noted (x := .poll n) wiring trivial rfl hx (.inr rfl) (hvx.mem hcalled)
        fun _ _ _ _ _ _ => trivial
  | none =>
      refine allows_noted (x := .poll n) wiring trivial rfl hx (.inr rfl) (hvx.mem hcalled)
        fun y hy hxy => ?_
      have hresolved := hxy.mem (List.mem_cons_self (a := Obs.dispatchResolved none entry.event))
      refine Safe.bind hy (Safe.call fun z hz hyz c => ?_)
      cases c.rejects with
      | some error =>
          exact allows_idle (x := .poll n) wiring trivial rfl hz
            fun _ _ _ _ _ _ => trivial
      | none =>
          have hbatchz := hyz.mem (hxy.mem (List.mem_cons_of_mem
            (Obs.dispatchResolved none entry.event) (hvx.mem (htv.mem (List.mem_cons_of_mem
              (Obs.dispatchCalled none entry.event) hbatch)))))
          exact allows (x := .poll n) wiring trivial rfl hz
            (.markedEntry hbatchz hmem (hyz.mem hresolved)) fun _ _ _ _ _ _ => trivial

theorem processEntries_safe (entries : List (OutboxEntry J)) {dispatched : Nat}
    (hs : Inv wiring s) (h : Batch entries s) :
    Safe (protocol wiring fun _ => True) (.relay n) (fun _ _ => True) (fun _ _ => True)
      (processEntries dispatched entries : Eff J Infra Nat) s := by
  induction entries generalizing dispatched s with
  | nil => exact Safe.pure fun _ _ _ => trivial
  | cons entry rest ih =>
      obtain ⟨batch, hmem, hentries⟩ := h
      refine Safe.bind hs ((keeping wiring (I := Batch rest) (processEntry_safe wiring hs
        ⟨batch, hmem, by simpa using hentries entry List.mem_cons_self⟩)
        ⟨batch, hmem, fun e he => hentries e (List.mem_cons_of_mem _ he)⟩
        fun t v htv h => h.mono htv).mono ?_ fun _ _ _ _ => trivial)
      exact fun _ t ht h => ih ht h.2

theorem poll_safe {batchSize : Nat} (hs : Inv wiring s) :
    Safe (protocol wiring fun _ => True) (.relay n) (fun _ _ => True) (fun _ _ => True)
      (poll batchSize : Eff J Infra Unit) s := by
  refine Safe.bind hs (Safe.mono (Q := fun _ _ => True) (E := fun _ _ => True) ?_
    (fun _ _ _ _ => Safe.pure fun _ _ _ => trivial) fun _ _ _ _ => trivial)
  refine Safe.bind hs (Safe.call fun t ht _ _ => ?_)
  have hpolling : ∀ {t : World J} {processing : Bool},
      Step wiring (.poll n) t { t with processing } := .polling
  cases hprocessing : t.processing with
  | true =>
      simp only [enterRelay, Segment.wp, hprocessing, if_true]
      exact allows_idle (x := .poll n) wiring trivial rfl ht fun _ _ _ _ _ _ => trivial
  | false =>
      simp only [enterRelay, Segment.wp, hprocessing, Bool.false_eq_true, if_false]
      refine allows (x := .poll n) wiring trivial rfl ht hpolling fun v hv _ => ?_
      have hleave : ∀ {t : World J}, Inv wiring t →
          Safe (protocol wiring fun _ => True) (.relay n) (fun _ _ => True) (fun _ _ => True)
            (Async.call fun _ => .modify fun w => { w with processing := false } :
              Eff J Infra Unit) t := fun _ =>
        Safe.call fun x hx _ _ =>
          allows (x := .poll n) wiring trivial rfl hx hpolling fun _ _ _ => trivial
      refine Safe.tryFinally hv ((Safe.tryCatch (Q := fun _ _ => True) (E := fun _ _ => True) hv
        (Safe.bind hv (Safe.call fun x hx _ c => ?_))).mono (fun _ _ hx _ => hleave hx)
        fun _ _ hx _ => hleave hx)
      unfold loadBatch
      cases c.rejects with
      | some error =>
          exact allows_idle (x := .poll n) wiring trivial rfl hx fun _ _ _ _ _ _ => trivial
      | none =>
          simp only [Segment.wp_bind, Segment.wp_read, note, Segment.wp_modify, Segment.wp_pure]
          refine allows_noted (x := .poll n) wiring trivial rfl hx (.inr rfl)
            ⟨batchSize, rfl⟩ fun y hy hxy => ?_
          exact (processEntries_safe wiring _ hy ⟨_, hxy.mem List.mem_cons_self,
            fun _ h => h⟩).mono (fun _ _ _ h => h) fun _ _ _ _ => Safe.pure fun _ _ _ => trivial

end Relay

/-! ## Runs -/

section Runs

variable [JsValue J] {workload : Workload J}

variable (workload) in
/-- What the caller of a thread is told when it settles with `error`. -/
def ThreadTold (error : Option Err) (w : World J) : Tid → Prop
  | .command n => (workload.commands n).isSome → .settled (.command n) error ∈ w.history
  | .scope n => Told (.scope n) error w
  | .saga n => Told (.saga n) error w
  | .relay _ => True

omit [JsValue J] in
theorem fresh_empty (d : Origin) : Fresh d ({} : World J) := ⟨rfl, rfl, rfl, fun _ => rfl⟩

omit [JsValue J] in
theorem uncreated_empty (u : UowRef) : Uncreated u ({} : World J) := ⟨rfl, rfl, rfl, rfl⟩

theorem thread_safe (i : Tid) :
    Safe (protocol wiring fun _ => True) i
      (fun _ t => ThreadTold workload none t i)
      (fun e t => ThreadTold workload (some e) t i)
      (thread wiring workload i) ({} : World J) := by
  have hs := inv_empty wiring
  cases i with
  | command n =>
      cases hcall : workload.commands n with
      | none =>
          simp only [thread, hcall, orIdle]
          exact Safe.pure fun _ _ _ => by simp [ThreadTold, hcall]
      | some call =>
          simp only [thread, hcall, orIdle]
          have htid : (call.task n).dispatch.tid = .command n := rfl
          have hfresh : Fresh (call.task n).dispatch ({} : World J) := fresh_empty _
          exact (dispatch_safe wiring (fun _ _ => trivial) htid hs hfresh).mono (fun _ _ _ h _ => h) fun _ _ _ h _ => h
  | scope n =>
      cases hcall : workload.scopes n with
      | none =>
          simp only [thread, hcall, orIdle]
          exact Safe.pure fun t _ hst =>
            ((uncreated_empty (.scope n)).of_respects rfl hst).told _
      | some call =>
          simp only [thread, hcall, orIdle]
          exact withUnitOfWork_safe wiring hs (uncreated_empty _) fun _ _ => fresh_empty _
  | saga n =>
      cases hcall : workload.sagas n with
      | none =>
          simp only [thread, hcall, orIdle]
          exact Safe.pure fun t _ hst =>
            ((uncreated_empty (.saga n)).of_respects rfl hst).told _
      | some call =>
          simp only [thread, hcall, orIdle]
          refine Safe.bind hs (Safe.await fun t ht hst _ r v hact => ?_)
          split at hact
          swap
          · simp at hact
          rename_i hcreated
          obtain ⟨rfl, rfl⟩ := by simpa using hact
          have huncreated := (uncreated_empty (J := J) (.saga n)).of_respects rfl hst
          refine allows_idle (x := .unit (.saga n)) wiring trivial rfl ht fun v hv htv => ?_
          refine executeSaga_safe wiring hv (huncreated.of_respects rfl htv)
            (FreshFrom.of_respects (s := t) ?_ (fun _ => rfl) htv) fun huow => ?_
          · exact FreshFrom.of_respects (fun _ _ => fresh_empty _) (fun _ => rfl) hst
          · simpa [huncreated.created] using hcreated _ huow
  | relay n =>
      cases hcall : workload.relays n with
      | none =>
          simp only [thread, hcall, orIdle]
          exact Safe.pure fun _ _ _ => trivial
      | some batchSize =>
          simp only [thread, hcall, orIdle]
          exact (poll_safe wiring hs).mono (fun _ _ _ _ => trivial) fun _ _ _ _ => trivial

variable {C : World J → World J → Prop} {q : Process J Infra}

theorem safe_of_run (hrun : Pool.Run C (boot wiring workload) q) :
    Inv wiring q.state ∧ ∀ i, Safe (protocol wiring fun _ => True) i
      (fun _ t => ThreadTold workload none t i)
      (fun e t => ThreadTold workload (some e) t i) (q.threads i) q.state :=
  Protocol.run (P := protocol wiring fun _ => True) (p := boot wiring workload)
    (inv_empty wiring) (thread_safe wiring) (hrun.imp fun _ _ _ => trivial)

theorem step_of_fire (hrun : Pool.Run C (boot wiring workload) q) {i : Tid} {c : Choice Infra}
    {r : Process J Infra} (hfire : q.fire i c = some r) : ∃ x, Step wiring x q.state r.state := by
  obtain ⟨x, -, -, hstep⟩ := Protocol.guar_of_fire (P := protocol wiring fun _ => True)
    (safe_of_run wiring hrun).1 (safe_of_run wiring hrun).2 hfire trivial
  exact ⟨x, hstep⟩

theorem steps_of_run (hrun : Pool.Run C (boot wiring workload) q) :
    Pool.Run (fun s t => C s t ∧ Inv wiring s ∧ ∃ x, Step wiring x s t)
      (boot wiring workload) q :=
  hrun.imp fun hrun hfire hC =>
    ⟨hC, (safe_of_run wiring hrun).1, step_of_fire wiring hrun hfire⟩

theorem told_of_resolved (hrun : Pool.Run C (boot wiring workload) q) {i : Tid}
    (hi : q.threads i = .pure ()) : ThreadTold workload none q.state i := by
  obtain ⟨hinv, hsafe⟩ := safe_of_run wiring hrun
  have hthread := hsafe i
  rw [hi] at hthread
  exact hthread q.state hinv (.refl i _)

theorem told_of_rejected (hrun : Pool.Run C (boot wiring workload) q) {i : Tid} {e : Err}
    (hi : q.threads i = .throw e) : ThreadTold workload (some e) q.state i := by
  obtain ⟨hinv, hsafe⟩ := safe_of_run wiring hrun
  have hthread := hsafe i
  rw [hi] at hthread
  exact hthread q.state hinv (.refl i _)

/-- What holds at the start and is kept by every step holds in every reachable state. -/
theorem steps_induction {I : World J → Prop} (hrun : Pool.Run C (boot wiring workload) q)
    (hstart : I {}) (hstep : ∀ s t x, Inv wiring s → C s t → Step wiring x s t → I s → I t) :
    I q.state := by
  have hsteps := steps_of_run wiring hrun
  clear hrun
  induction hsteps with
  | refl => exact hstart
  | tail _ _ hC ih =>
      obtain ⟨hC, hs, x, h⟩ := hC
      exact hstep _ _ x hs hC h ih

theorem inv_of_run (hrun : Pool.Run C (boot wiring workload) q) : Inv wiring q.state :=
  steps_induction wiring hrun (inv_empty wiring) fun _ _ _ hs _ h _ => hs.step h

end Runs

end Noddde
