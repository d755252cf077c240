import Noddde.Proofs.Dispatches
/-!
# The steps of the owner of an explicit unit of work

What a `withUnitOfWork` call and a saga execution have in common: run a function inside
the unit of work, settle it, run its hooks, publish its events and follow up.
-/

namespace Noddde

open Async

variable {J Infra : Type} (wiring : Wiring J Infra)

/-! ## Assertions -/

/-- The function that runs inside `u` has not settled. -/
structure Opened (u : UowRef) (w : World J) : Prop where
  isOpen : (w.uows u).completed = false
  unsettled : ∀ e, .fnSettled u e ∉ w.history
  pending : (w.frames u).hooksRan = false

/-- The life of `u` has ended, and its hooks are still to run. -/
structure Lived (u : UowRef) (committed : Bool) (w : World J) : Prop where
  outcome : (w.uows u).outcome = some committed
  flag : (w.frames u).committed = committed
  pending : (w.frames u).hooksRan = false
  quiet : Quiet u w

/-- The hooks of `u` are running or have run. -/
structure HooksTaken (u : UowRef) (committed : Bool) (w : World J) : Prop where
  outcome : (w.uows u).outcome = some committed
  taken : ∃ within hooks, .hooksTaken u committed within hooks ∈ w.history
  quiet : Quiet u w

def Obs.ranHook? (u : UowRef) : Obs J → Option (Hook J)
  | .hookRan v hook none => if v = u then some hook else none
  | _ => none

def ranHooksIn (u : UowRef) (h : List (Obs J)) : List (Hook J) :=
  (h.filterMap (Obs.ranHook? u)).reverse

def HookRejected (u : UowRef) (h : List (Obs J)) : Prop :=
  ∃ hook e, .hookRan u hook (some e) ∈ h

/-- The loop over the `hooks` of `u` has still to run `rest`. -/
structure RunsHooks (u : UowRef) (hooks rest : List (Hook J)) (w : World J) : Prop where
  running : (w.frames u).running = rest
  accepted : ∀ hook e, .hookRan u hook (some e) ∉ w.history
  count : hooks.length ≤ (ranHooksIn u w.history).length + rest.length

/-- The hooks of `u` were taken, and the loop over them has ended. -/
def Drained (u : UowRef) (h : List (Obs J)) : Prop :=
  ∃ committed within hooks, .hooksTaken u committed within hooks ∈ h ∧
    (hooks.length ≤ (ranHooksIn u h).length ∨ HookRejected u h)

def Unsuccessful (u : UowRef) (e : Err) (h : List (Obs J)) : Prop :=
  .fnSettled u (some e) ∈ h ∨ CommitFailed u e h

/-- All the events that `u` has committed were handed to the bus, and it has accepted them. -/
def Published (u : UowRef) (h : List (Obs J)) : Prop :=
  .committed u (calledIn u h) ∈ h ∧ resolvedIn u h = calledIn u h

def Reported (u : UowRef) (error : Option Err) (h : List (Obs J)) : Prop :=
  match error with
  | none =>
      (∃ within hooks, .hooksTaken u true within hooks ∈ h) ∧ .fnSettled u none ∈ h ∧
        .followUpSettled u none ∈ h ∧ Published u h
  | some e =>
      (∃ committed within hooks, .hooksTaken u committed within hooks ∈ h) ∧
        (Unsuccessful u e h ∧ (∀ events, .committed u events ∉ h) ∨
          (∃ event, .dispatchRejected (some u) event e ∈ h) ∨
          .followUpSettled u (some e) ∈ h ∧ Published u h)

section Assertions

variable {wiring} {i : Tid} {s t : World J} {u : UowRef} {committed : Bool}

theorem Opened.of_respects (h : Opened u s) (hi : u.owner = i) (hst : Respects i s t) :
    Opened u t where
  isOpen := by rw [(hst.stays u hi).completed, h.isOpen]
  unsettled e := hst.notMem (x := .unit u) hi rfl (h.unsettled e)
  pending := by rw [(hst.stays u hi).frame, h.pending]

theorem Opened.step [JsValue J] {x : Subject} (h : Opened u s) (hstep : Step wiring x s t)
    (hx : x ≠ .unit u) : Opened u t where
  isOpen := by rw [(hstep.stays hx).completed, h.isOpen]
  unsettled e := by
    have hunsettled := h.unsettled e
    rw [← mem_about (x := .unit u) rfl] at hunsettled ⊢
    rwa [hstep.adds.about hx.symm]
  pending := by rw [(hstep.stays hx).frame, h.pending]

theorem Quiet.of_respects (h : Quiet u s) (hi : u.owner = i) (hst : Respects i s t) :
    Quiet u t := by
  unfold Quiet
  rw [hst.about (.unit u) hi]
  exact h

theorem Quiet.note {o : Obs J} (h : Quiet u s) (ho : o.publishes u = false) :
    Quiet u (s.note o) := by
  intro o' ho'
  rcases List.mem_cons.mp (List.mem_of_mem_filter ho') with rfl | hmem
  · exact ho
  · by_contra hpublishes
    have hpublishes : o'.publishes u = true := by simpa using hpublishes
    have hquiet := h o' ((mem_about (subject_of_publishes hpublishes)).mpr hmem)
    simp [hquiet] at hpublishes

/-- Nothing is published before the unit of work has committed. -/
theorem Inv.quiet (hs : Inv wiring s) (h : (s.uows u).outcome ≠ some true) : Quiet u s := by
  intro o ho
  by_contra hpublishes
  exact h (hs.published u o (List.mem_of_mem_filter ho) (by simpa using hpublishes))

theorem Lived.of_respects (h : Lived u committed s) (hi : u.owner = i)
    (hst : Respects i s t) : Lived u committed t where
  outcome := by rw [(hst.stays u hi).outcome, h.outcome]
  flag := by rw [(hst.stays u hi).frame, h.flag]
  pending := by rw [(hst.stays u hi).frame, h.pending]
  quiet := h.quiet.of_respects hi hst

theorem HooksTaken.of_respects (h : HooksTaken u committed s) (hi : u.owner = i)
    (hst : Respects i s t) : HooksTaken u committed t where
  outcome := by rw [(hst.stays u hi).outcome, h.outcome]
  taken := by
    obtain ⟨within, hooks, hmem⟩ := h.taken
    exact ⟨within, hooks, hst.mem hmem⟩
  quiet := h.quiet.of_respects hi hst

theorem ranHooksIn_note {o : Obs J} :
    ranHooksIn u (s.note o).history = ranHooksIn u s.history ++ (o.ranHook? u).toList := by
  rw [ranHooksIn, World.note, List.filterMap_cons]
  cases o.ranHook? u with
  | none => simp [ranHooksIn]
  | some hook => simp [ranHooksIn]

theorem ranHooksIn_le {h h' : List (Obs J)} (hh : h <:+ h') :
    (ranHooksIn u h).length ≤ (ranHooksIn u h').length := by
  rw [ranHooksIn, ranHooksIn, List.length_reverse, List.length_reverse]
  exact (hh.filterMap _).length_le

theorem RunsHooks.of_respects {hooks rest : List (Hook J)} (h : RunsHooks u hooks rest s)
    (hi : u.owner = i) (hst : Respects i s t) : RunsHooks u hooks rest t where
  running := by rw [(hst.stays u hi).frame, h.running]
  accepted hook e := hst.notMem (x := .unit u) hi rfl (h.accepted hook e)
  count := by
    have hle := ranHooksIn_le (u := u) hst.grows
    have hcount := h.count
    omega

theorem RunsHooks.hookEnded {hook : Hook J} {hooks rest : List (Hook J)}
    (h : RunsHooks u hooks (hook :: rest) s) : RunsHooks u hooks rest (s.hookEnded u hook) where
  running := by simp [World.hookEnded, World.note, World.setFrame, h.running]
  accepted other e hmem :=
    h.accepted other e ((List.mem_cons.mp hmem).resolve_left (by simp))
  count := by
    have hcount := h.count
    rw [World.hookEnded, ranHooksIn_note, List.length_append, Obs.ranHook?, if_pos rfl]
    change _ ≤ (ranHooksIn u s.history).length + 1 + rest.length
    rw [List.length_cons] at hcount
    omega

/-- The first hook that is still to run may run. -/
theorem RunsHooks.turn {hook : Hook J} {hooks rest : List (Hook J)}
    (h : RunsHooks u hooks (hook :: rest) s) (htaken : HooksTaken u committed s) :
    HookTurn u hook s :=
  ⟨by rw [h.running, List.head?_cons], h.accepted, htaken.quiet⟩

theorem Drained.mono {h h' : List (Obs J)} (hd : Drained u h) (hh : h <:+ h') :
    Drained u h' := by
  obtain ⟨committed, within, hooks, hmem, hran⟩ := hd
  refine ⟨committed, within, hooks, hh.subset hmem, hran.imp ?_ ?_⟩
  · exact fun hle => hle.trans (ranHooksIn_le hh)
  · exact fun ⟨hook, e, hrejected⟩ => ⟨hook, e, hh.subset hrejected⟩

theorem Drained.taken {h : List (Obs J)} (hd : Drained u h) :
    ∃ committed within hooks, .hooksTaken u committed within hooks ∈ h := by
  obtain ⟨committed, within, hooks, hmem, -⟩ := hd
  exact ⟨committed, within, hooks, hmem⟩

theorem Unsuccessful.mono {e : Err} {h h' : List (Obs J)} (hu : Unsuccessful u e h)
    (hh : h ⊆ h') : Unsuccessful u e h' := by
  rcases hu with hmem | ⟨operation, hmem⟩ | hmem
  · exact .inl (hh hmem)
  · exact .inr (.inl ⟨operation, hh hmem⟩)
  · exact .inr (.inr (hh hmem))

theorem Published.of_respects (h : Published u s.history) (hi : u.owner = i)
    (hst : Respects i s t) : Published u t.history := by
  unfold Published
  rw [hst.calledIn hi, hst.resolvedIn hi]
  exact ⟨hst.mem h.1, h.2⟩

theorem Reported.of_respects {error : Option Err} (h : Reported u error s.history)
    (hi : u.owner = i) (hst : Respects i s t) : Reported u error t.history := by
  cases error with
  | none =>
      obtain ⟨⟨within, hooks, hmem⟩, hfn, hfollowUp, hpublished⟩ := h
      exact ⟨⟨within, hooks, hst.mem hmem⟩, hst.mem hfn, hst.mem hfollowUp,
        hpublished.of_respects hi hst⟩
  | some e =>
      obtain ⟨⟨committed, within, hooks, hmem⟩, hreason⟩ := h
      refine ⟨⟨committed, within, hooks, hst.mem hmem⟩, ?_⟩
      refine hreason.imp (fun h => ⟨h.1.mono hst.grows.subset, fun events => ?_⟩)
        (Or.imp (fun ⟨event, h⟩ => ⟨event, hst.mem h⟩)
          fun h => ⟨hst.mem h.1, h.2.of_respects hi hst⟩)
      exact hst.notMem (x := .unit u) hi rfl (h.2 events)

end Assertions

section Owner

variable [JsValue J] {α : Type} {X : Subject → Prop} {i : Tid} {s t : World J} {u : UowRef}
  {ambient : Ambient} {committed : Bool}

/-- A program that serves `x` alone, next to what steps for `x` leave alone. -/
theorem alongside {x : Subject} {Q : α → World J → Prop} {E : Err → World J → Prop}
    {p : Eff J Infra α} {I : World J → Prop}
    (h : Safe (protocol wiring (Only x)) i Q E p s) (hX : X x) (hI : I s)
    (hstep : ∀ t v, Step wiring x t v → I t → I v)
    (hrely : ∀ t v, Respects i t v → I t → I v) :
    Safe (protocol wiring X) i (fun a t => Q a t ∧ I t) (fun e t => E e t ∧ I t) p s :=
  narrow wiring h (by rintro _ rfl; exact hX) hI
    (by rintro _ t v rfl - h; exact hstep t v h) hrely

/-! ## The completion hooks -/

theorem runHook_safe {hook : Hook J} {hooks rest : List (Hook J)} (hX : X (.unit u))
    (hi : u.owner = i) (hruns : RunsHooks u hooks (hook :: rest) s)
    (htaken : HooksTaken u committed s) :
    Safe (protocol wiring X) i
      (fun _ t => RunsHooks u hooks rest t ∧ HooksTaken u committed t)
      (fun _ t => HooksTaken u committed t ∧ HookRejected u t.history)
      (runHook wiring u hook) s := by
  -- both kinds of hook end with `hookEnded`
  have hended : ∀ {t : World J}, RunsHooks u hooks (hook :: rest) t →
      HooksTaken u committed t →
      RunsHooks u hooks rest (t.hookEnded u hook) ∧
        HooksTaken u committed (t.hookEnded u hook) := by
    intro t hruns htaken
    refine ⟨hruns.hookEnded, htaken.outcome, ?_, ?_⟩
    · obtain ⟨within, hooks, hmem⟩ := htaken.taken
      exact ⟨within, hooks, List.mem_cons_of_mem _ hmem⟩
    · exact Quiet.note (s := t.setFrame u _) htaken.quiet rfl
  have hlater : ∀ {t v : World J}, Respects i t v →
      RunsHooks u hooks rest t ∧ HooksTaken u committed t →
      RunsHooks u hooks rest v ∧ HooksTaken u committed v := fun h ht =>
    ⟨ht.1.of_respects hi h, ht.2.of_respects hi h⟩
  unfold runHook
  cases hook with
  | saveSnapshot aggregateName aggregateId snapshot =>
      refine Safe.call fun t ht hst c => ?_
      have hrunst := hruns.of_respects hi hst
      have htakent := htaken.of_respects hi hst
      have hturn := hrunst.turn htakent
      cases c.rejects with
      | some _ =>
          exact allows wiring hX hi ht (.ranSnapshotHook false hturn)
            fun v _ hv => hlater hv (hended hrunst htakent)
      | none =>
          exact allows wiring hX hi ht (.ranSnapshotHook true hturn)
            fun v _ hv => hlater hv
              (hended (t := t.savedSnapshot aggregateName aggregateId snapshot)
                ⟨hrunst.running, hrunst.accepted, hrunst.count⟩
                ⟨htakent.outcome, htakent.taken, htakent.quiet⟩)
  | release ticket aggregateName aggregateId =>
      refine Safe.call fun t ht hst c => ?_
      have hrunst := hruns.of_respects hi hst
      have htakent := htaken.of_respects hi hst
      have hturn := hrunst.turn htakent
      have hjoined : ticket.uow = some u := ht.hooks u (.release ticket aggregateName aggregateId)
        (by simp [heldHooks, hrunst.running])
      cases hrejects : Locker.releaseRejects wiring c with
      | some error =>
          have hmay : wiring.releaseMayReject = true := by
            by_contra hmay
            simp [Locker.releaseRejects, hmay] at hrejects
          simp only [hookRejected, Segment.wp_bind, note, Segment.wp_modify, Segment.wp_raise]
          refine allows_noted wiring hX hi ht (.inl rfl) ⟨by simp, hmay, rfl, hturn⟩
            fun v _ hv => ⟨HooksTaken.of_respects (s := t.note _)
              ⟨htakent.outcome, ?_, ?_⟩ hi hv, _, error, hv.mem List.mem_cons_self⟩
          · obtain ⟨within, hooks, hmem⟩ := htakent.taken
            exact ⟨within, hooks, List.mem_cons_of_mem _ hmem⟩
          · exact htakent.quiet.note rfl
      | none =>
          obtain ⟨hok, -⟩ := Locker.release_spec ticket aggregateName aggregateId t
          have hgrows := Locker.release_adds (s := t) (x := .unit u) ticket aggregateName
            aggregateId fun _ => by simp [Obs.subject, hjoined]
          have hreleased : HooksTaken u committed
              (Locker.release ticket aggregateName aggregateId t).2 := by
            refine ⟨by rw [Locker.release_uows]; exact htakent.outcome, ?_, ?_⟩
            · obtain ⟨within, hooks, hmem⟩ := htakent.taken
              exact ⟨within, hooks, hgrows.grows.subset hmem⟩
            · intro o ho
              rcases Locker.mem_release (List.mem_of_mem_filter ho) with hmem | ⟨_, rfl⟩ |
                ⟨_, _, rfl⟩
              · by_contra hpublishes
                have hpublishes : o.publishes u = true := by simpa using hpublishes
                have hquiet := htakent.quiet o
                  ((mem_about (subject_of_publishes hpublishes)).mpr hmem)
                simp [hquiet] at hpublishes
              · rfl
              · rfl
          have hrunsr : RunsHooks u hooks (.release ticket aggregateName aggregateId :: rest)
              (Locker.release ticket aggregateName aggregateId t).2 := by
            refine ⟨by rw [Locker.release_frames, hrunst.running], ?_, ?_⟩
            · intro other e hmem
              rcases Locker.mem_release hmem with hmem | ⟨_, heq⟩ | ⟨_, _, heq⟩
              · exact hrunst.accepted other e hmem
              · cases heq
              · cases heq
            have hle := ranHooksIn_le (u := u) hgrows.grows
            have hcount := hrunst.count
            omega
          simp only [Segment.wp_bind]
          simp only [Segment.wp, hok]
          exact allows wiring hX hi ht (.ranReleaseHook hjoined hturn)
            fun v _ hv => hlater hv (hended hrunsr hreleased)

theorem runHooksOnce_safe {E : Err → World J → Prop} (hX : X (.unit u)) (hi : u.owner = i)
    (hs : Inv wiring s) (houtside : ambient.uow ≠ some u) (hlived : Lived u committed s) :
    Safe (protocol wiring X) i (fun _ t => HooksTaken u committed t ∧ Drained u t.history) E
      (runHooksOnce wiring ambient u) s := by
  refine Safe.bind hs (Safe.call fun t ht hst _ => ?_)
  have hlivedt := hlived.of_respects hi hst
  simp only [claimHooks, Segment.wp, hlivedt.pending, hlivedt.flag, Bool.false_eq_true, if_false]
  refine allows wiring hX hi ht (.claimedHooks hlivedt.pending (by simp [hlivedt.outcome]))
    fun v hv htv => ?_
  have houtcome : (v.uows u).outcome = some committed := by
    rw [(htv.stays u hi).outcome]
    exact hlivedt.outcome
  have hclaimed : (v.frames u).hooksRan = true := by
    rw [(htv.stays u hi).frame]
    simp [World.setFrame]
  have huntaken : ∀ committed within hooks,
      .hooksTaken u committed within hooks ∉ v.history := by
    intro committed' within hooks
    refine htv.notMem (x := .unit u) hi rfl fun hmem => ?_
    have hran := ht.taken u committed' within hooks hmem
    rw [hlivedt.pending] at hran
    simp at hran
  have haccepted : ∀ hook e, .hookRan u hook (some e) ∉ v.history := by
    intro hook e
    refine htv.notMem (x := .unit u) hi rfl fun hmem => ?_
    have hran := ht.ran u hook _ hmem
    rw [hlivedt.pending] at hran
    cases hran
  have hquiet : Quiet u v :=
    Quiet.of_respects (s := t.setFrame u _) hlivedt.quiet hi htv
  refine Safe.tryCatch hv (Safe.bind hv (Safe.call fun x hx hvx _ => ?_))
  have htook : Step wiring (.unit u) x (takeHooks ambient u committed x).2 := .tookHooks houtside
    (by rw [(hvx.stays u hi).frame, hclaimed]) (by rw [(hvx.stays u hi).outcome, houtcome])
    fun committed within hooks => hvx.notMem (x := .unit u) hi rfl
      (huntaken committed within hooks)
  refine allows wiring hX hi hx htook fun y hy hxy => ?_
  have htaken : HooksTaken u committed y := by
    refine HooksTaken.of_respects (s := (takeHooks ambient u committed x).2) ⟨?_, ?_, ?_⟩ hi hxy
    · rw [← houtcome, ← (hvx.stays u hi).outcome]
      rfl
    · exact ⟨_, _, List.mem_cons_self⟩
    · have hquietx : Quiet u x := hquiet.of_respects hi hvx
      exact Quiet.note (s := (x.setHooks u none).setFrame u _) hquietx rfl
  let hooks : List (Hook J) := (if committed then (getOrCreate u x).onCommitted else []) ++
    (getOrCreate u x).onSettled
  have hmem : .hooksTaken u committed ambient.uow hooks ∈ y.history :=
    hxy.mem List.mem_cons_self
  have hruns : RunsHooks u hooks hooks y := by
    refine ⟨?_, fun hook e => ?_, Nat.le_add_left _ _⟩
    · rw [(hxy.stays u hi).frame]
      simp [takeHooks, World.note, World.setFrame, World.setHooks, hooks]
    · refine hxy.notMem (x := .unit u) hi rfl fun hmem => ?_
      exact hvx.notMem (x := .unit u) hi rfl (haccepted hook e)
        ((List.mem_cons.mp hmem).resolve_left (by simp))
  have hdrained : ∀ {z : World J}, .hooksTaken u committed ambient.uow hooks ∈ z.history →
      hooks.length ≤ (ranHooksIn u z.history).length ∨ HookRejected u z.history →
      Drained u z.history := fun hmem hran => ⟨committed, ambient.uow, hooks, hmem, hran⟩
  refine (keeping wiring (I := fun z => .hooksTaken u committed ambient.uow hooks ∈ z.history)
    (Safe.forEach (I := fun rest z => RunsHooks u hooks rest z ∧ HooksTaken u committed z)
      (E := fun _ z => HooksTaken u committed z ∧ HookRejected u z.history) hy ⟨hruns, htaken⟩
      (fun hook rest z _ h => runHook_safe wiring hX hi h.1 h.2)
      fun rest z z' _ hz h => ⟨h.1.of_respects hi hz, h.2.of_respects hi hz⟩)
    hmem fun z z' hz h => hz.subset h).mono ?_ ?_
  · rintro _ z _ ⟨⟨hrunsz, htakenz⟩, hmemz⟩
    exact ⟨htakenz, hdrained hmemz (.inl (by simpa using hrunsz.count))⟩
  · rintro e z hz ⟨⟨htakenz, hrejected⟩, hmemz⟩
    have hdrainedz := hdrained hmemz (.inr hrejected)
    exact Safe.pure fun z' _ hzz' => ⟨htakenz.of_respects hi hzz', hdrainedz.mono hzz'.grows⟩

/-- The hooks do not run twice. -/
theorem runHooksOnce_idle {E : Err → World J → Prop} {I : World J → Prop} (hX : X (.unit u))
    (hi : u.owner = i) (hs : Inv wiring s)
    (htaken : ∃ committed within hooks, .hooksTaken u committed within hooks ∈ s.history)
    (hI : I s) (hrely : ∀ t v, Respects i t v → I t → I v) :
    Safe (protocol wiring X) i (fun _ => I) E (runHooksOnce wiring ambient u) s := by
  obtain ⟨committed, within, hooks, hmem⟩ := htaken
  refine Safe.bind hs (Safe.call fun t ht hst _ => ?_)
  simp only [claimHooks, Segment.wp, ht.taken u committed within hooks (hst.mem hmem), if_true]
  refine allows_idle wiring hX hi ht fun v _ htv => ?_
  intro x _ hvx
  exact hrely v x hvx (hrely t v htv (hrely s t hst hI))

/-! ## Settling -/

/-- Run the function inside `u` and commit, or give `u` up; `F` is what the follow-up
will need. -/
theorem runAndCommit_safe {fn : Eff J Infra Unit} {F : World J → Prop} (hX : X (.unit u))
    (hi : u.owner = i) (hu : u.implicit = false) (hs : Inv wiring s)
    (hfn : Safe (protocol wiring X) i (fun _ t => Opened u t ∧ F t) (fun _ => Opened u) fn s)
    (hstep : ∀ t v, Step wiring (.unit u) t v → F t → F v)
    (hrely : ∀ t v, Respects i t v → F t → F v) :
    Safe (protocol wiring X) i
      (fun events t => Lived u true t ∧ .committed u events ∈ t.history ∧
        .fnSettled u none ∈ t.history ∧ F t)
      (fun e t => Lived u false t ∧ Unsuccessful u e t.history)
      (runAndCommit wiring u fn) s := by
  -- whatever fails, the unit of work is rolled back
  have hfail : ∀ {Q : List (Event J) → World J → Prop} (e : Err) t, Inv wiring t →
      (t.uows u).outcome = some false ∨ (t.uows u).completed = false ∧
        (u.implicit = false → ∃ e, .fnSettled u (some e) ∈ t.history) →
      (t.frames u).hooksRan = false → Unsuccessful u e t.history →
      Safe (protocol wiring X) i Q (fun e t => Lived u false t ∧ Unsuccessful u e t.history)
        ((tryRollback wiring u).bind fun _ => .throw e) t := by
    intro Q e t ht hgiveUp hpending hreason
    refine Safe.bind ht ((keeping wiring (I := fun v => Unsuccessful u e v.history)
      (tryRollback_safe' wiring (E := fun _ _ => False) hX hi ht hgiveUp) hreason
      fun v x hvx h => h.mono hvx.subset).mono ?_ fun _ _ _ h => h.1.elim)
    rintro _ v hv ⟨⟨houtcome, hframe⟩, hreasonv⟩
    have hflag : (v.frames u).committed = false := by
      by_contra hflag
      have := (hv.units u).frame (by simpa using hflag)
      simp [houtcome] at this
    have hlived : Lived u false v :=
      ⟨houtcome, hflag, by rw [hframe, hpending], hv.quiet (by simp [houtcome])⟩
    exact Safe.throw fun x _ hvx => ⟨hlived.of_respects hi hvx, hreasonv.mono hvx.grows.subset⟩
  refine Safe.tryCatch hs (Safe.bind hs (Safe.bind hs ((Safe.attempt
    (Q := fun r t => Opened u t ∧ (r = .ok () → F t)) (hfn.mono
      (fun _ _ _ h => ⟨h.1, fun _ => h.2⟩) fun _ _ _ h => ⟨h, by simp⟩)).mono ?_
    fun _ _ _ h => h)))
  rintro r t ht ⟨hopened, hF⟩
  refine Safe.call fun v hv htv _ => ?_
  have hopenedv := hopened.of_respects hi htv
  simp only [Segment.wp_bind, note, Segment.wp_modify, Segment.wp_ofExcept]
  refine allows_noted wiring hX hi hv (.inl rfl)
    ⟨hu, ((hv.units u).fresh hopenedv.isOpen).2, hopenedv.unsettled⟩ fun x hx hvx => ?_
  have hmem := hvx.mem (List.mem_cons_self (a := Obs.fnSettled u (rejection r)))
  have hopenx : (x.uows u).completed = false := by
    rw [(hvx.stays u hi).completed]
    exact hopenedv.isOpen
  have hpendingx : (x.frames u).hooksRan = false := by
    rw [(hvx.stays u hi).frame]
    exact hopenedv.pending
  cases r with
  | error e => exact hfail e x hx (.inr ⟨hopenx, fun _ => ⟨e, hmem⟩⟩) hpendingx (.inl hmem)
  | ok _ =>
      have hFx : F x := hrely _ x hvx (hstep v _ (.noted (.inl rfl)
        ⟨hu, ((hv.units u).fresh hopenedv.isOpen).2, hopenedv.unsettled⟩)
        (hrely t v htv (hF rfl)))
      refine Safe.bind hx ((alongside wiring (I := fun y => F y ∧ .fnSettled u none ∈ y.history)
        (commit_safe' wiring (only_self _) hi hx hopenx (by simp [hu]) fun _ => hmem) hX
        ⟨hFx, hmem⟩ (fun y z h hy => ⟨hstep y z h hy.1, h.adds.grows.subset hy.2⟩)
        fun y z h hy => ⟨hrely y z h hy.1, h.mem hy.2⟩).mono ?_ ?_)
      · rintro events y hy ⟨⟨hunpublished, hframe⟩, hFy, hsettled⟩
        refine Safe.bind hy (Safe.call fun z hz hyz _ => ?_)
        have hunpublishedz := hunpublished.of_respects hi hyz
        have hset : Step wiring (.unit u) z (z.setFrame u fun frame =>
            { frame with committed := true }) := .setCommitted hunpublishedz.outcome
        simp only [setCommitted, Segment.wp_modify]
        refine allows wiring hX hi hz hset fun z' _ hz' => ?_
        have hlived : Lived u true (z.setFrame u fun frame =>
            { frame with committed := true }) :=
          ⟨hunpublishedz.outcome, by simp [World.setFrame], by
            simp [World.setFrame, (hyz.stays u hi).frame, hframe, hpendingx],
            hunpublishedz.quiet⟩
        intro z'' _ hz''
        refine ⟨(hlived.of_respects hi hz').of_respects hi hz'',
          hz''.mem (hz'.mem hunpublishedz.committed), hz''.mem (hz'.mem (hyz.mem hsettled)), ?_⟩
        exact hrely _ _ hz'' (hrely _ _ hz' (hstep _ _ hset (hrely _ _ hyz hFy)))
      · rintro e y hy ⟨⟨⟨houtcome, hcommitFailed⟩, hframe⟩, -⟩
        exact hfail e y hy (.inl houtcome) (by rw [hframe, hpendingx]) (.inr hcommitFailed)

/-- The owner of `u` runs its function, settles it, publishes and follows up. -/
theorem settleAndPublish_safe {fn andThen : Eff J Infra Unit} {F : World J → Prop}
    (hX : X (.unit u)) (hi : u.owner = i) (hu : u.implicit = false) (hs : Inv wiring s)
    (houtside : ambient.uow ≠ some u)
    (hfn : Safe (protocol wiring X) i (fun _ t => Opened u t ∧ F t) (fun _ => Opened u) fn s)
    (hstep : ∀ t v, Step wiring (.unit u) t v → F t → F v)
    (hrely : ∀ t v, Respects i t v → F t → F v)
    (hthen : ∀ t events, Inv wiring t → F t → Settled u events [] t →
      Safe (protocol wiring X) i (fun _ => Settled u events [])
        (fun _ => Settled u events []) andThen t) :
    Safe (protocol wiring X) i (fun _ t => Reported u none t.history ∧ Drained u t.history)
      (fun e t => Reported u (some e) t.history ∧ Drained u t.history)
      (settleAndPublish wiring ambient u fn andThen) s := by
  -- once the hooks have run, the `finally` block does nothing
  have hdone : ∀ {E : Err → World J → Prop} {t : World J} (error : Option Err), Inv wiring t →
      Reported u error t.history → Drained u t.history →
      Safe (protocol wiring X) i
        (fun _ t => Reported u error t.history ∧ Drained u t.history) E
        (runHooksOnce wiring ambient u) t := by
    intro E t error ht hreported hdrained
    exact runHooksOnce_idle wiring hX hi ht hdrained.taken ⟨hreported, hdrained⟩
      fun v x hvx h => ⟨h.1.of_respects hi hvx, h.2.mono hvx.grows⟩
  refine Safe.tryFinally hs (Safe.bind hs ((runAndCommit_safe wiring hX hi hu hs hfn hstep
    hrely).mono ?_ ?_))
  swap
  · rintro e t ht ⟨hlived, hreason⟩
    refine (keeping wiring (I := fun v => Unsuccessful u e v.history)
      (runHooksOnce_safe wiring (E := fun _ _ => False) hX hi ht houtside hlived) hreason
      fun v x hvx h => h.mono hvx.subset).mono ?_ fun _ _ _ h => h.1.elim
    rintro _ v hv ⟨⟨htaken, hdrained⟩, hreasonv⟩
    obtain ⟨within, hooks, hmem⟩ := htaken.taken
    refine ⟨⟨⟨false, within, hooks, hmem⟩, .inl ⟨hreasonv, fun events hcommitted => ?_⟩⟩, hdrained⟩
    have houtcome := ((hv.units u).committed events hcommitted).1
    rw [htaken.outcome] at houtcome
    cases houtcome
  rintro events t ht ⟨hlived, hcommitted, hsettled, hF⟩
  let G (v : World J) : Prop :=
    F v ∧ .committed u events ∈ v.history ∧ .fnSettled u none ∈ v.history
  have hG : ∀ v x, Step wiring (.unit u) v x → G v → G x := fun v x h hv =>
    ⟨hstep v x h hv.1, h.adds.grows.subset hv.2.1, h.adds.grows.subset hv.2.2⟩
  have hG' : ∀ v x, Respects i v x → G v → G x := fun v x h hv =>
    ⟨hrely v x h hv.1, h.mem hv.2.1, h.mem hv.2.2⟩
  refine Safe.bind ht ((alongside wiring (I := G) (runHooksOnce_safe wiring
    (E := fun _ _ => False) (only_self _) hi ht houtside hlived) hX
    ⟨hF, hcommitted, hsettled⟩ hG hG').mono ?_ fun _ _ _ h => h.1.elim)
  rintro _ v hv ⟨⟨htaken, hdrained⟩, hGv⟩
  have hunpublished : Unpublished u events v :=
    ⟨htaken.outcome, hGv.2.1, htaken.quiet⟩
  let H (x : World J) : Prop :=
    (∃ within hooks, .hooksTaken u true within hooks ∈ x.history) ∧ Drained u x.history
  have hH : ∀ x y : World J, x.history <:+ y.history → H x → H y :=
    fun x y h ⟨⟨within, hooks, hmem⟩, hdrained⟩ =>
      ⟨⟨within, hooks, h.subset hmem⟩, hdrained.mono h⟩
  refine Safe.bind hv ((alongside wiring (I := fun x => G x ∧ H x) (publish_safe wiring
    (only_self _) hi hv (hunpublished.settled fun _ => htaken.taken)) hX ⟨hGv, htaken.taken, hdrained⟩
    (fun x y h hx => ⟨hG x y h hx.1, hH x y h.adds.grows hx.2⟩)
    fun x y h hx => ⟨hG' x y h hx.1, hH x y h.grows hx.2⟩).mono ?_ ?_)
  swap
  · rintro e x hx ⟨hrejected, -, ⟨within, hooks, hmem⟩, hdrainedx⟩
    exact hdone (some e) hx ⟨⟨true, within, hooks, hmem⟩, .inr (.inl hrejected)⟩ hdrainedx
  rintro _ x hx ⟨hpublished, hGx, hHx⟩
  refine Safe.bind hx ((Safe.attempt (Q := fun _ y => Settled u events [] y ∧
    .fnSettled u none ∈ y.history ∧ H y) (keeping wiring (hthen x events hx hGx.1 hpublished)
    ⟨hGx.2.2, hHx⟩ fun y z h hy => ⟨h.subset hy.1, hH y z h hy.2⟩)).mono ?_ fun _ _ _ h => h)
  rintro r y hy ⟨hsettledy, hfny, hHy⟩
  refine Safe.call fun z hz hyz _ => ?_
  have hsettledz := hsettledy.of_respects hi hyz
  simp only [Segment.wp_bind, note, Segment.wp_modify, Segment.wp_ofExcept]
  refine allows_noted wiring hX hi hz (.inl rfl)
    ⟨hu, hsettledz.publishing, hsettledz.resolved.trans hsettledz.called.symm⟩
    fun z' hz' hzz' => ?_
  have hmem := hzz'.mem (List.mem_cons_self (a := Obs.followUpSettled u (rejection r)))
  obtain ⟨⟨within, hooks, htaken'⟩, hdrainedz⟩ := hH y z hyz.grows hHy
  have hdrainedz' : Drained u z'.history :=
    hdrainedz.mono ((List.suffix_cons _ _).trans hzz'.grows)
  have htakenz' := hzz'.mem (List.mem_cons_of_mem (Obs.followUpSettled u (rejection r)) htaken')
  have hpublishedz' : Published u z'.history := by
    have hcommittedz := hsettledz.publishing.committed
    rw [List.append_nil] at hcommittedz
    have hpublishedz : Published u (z.note (.followUpSettled u (rejection r))).history :=
      ⟨List.mem_cons_of_mem _ hcommittedz, hsettledz.resolved.trans hsettledz.called.symm⟩
    exact hpublishedz.of_respects hi hzz'
  cases r with
  | error e =>
      exact hdone (some e) hz'
        ⟨⟨true, within, hooks, htakenz'⟩, .inr (.inr ⟨hmem, hpublishedz'⟩)⟩ hdrainedz'
  | ok _ =>
      exact hdone none hz' ⟨⟨within, hooks, htakenz'⟩,
        hzz'.mem (List.mem_cons_of_mem _ (hyz.mem hfny)), hmem, hpublishedz'⟩ hdrainedz'

end Owner

end Noddde
