import Noddde.Engine.Sample
import Noddde.Proofs.Provenance
import Noddde.Proofs.Versions
/-!
# Correlation and causation

All events that a root command brings about, through any number of saga reactions,
carry one correlation id, and those of a reaction point back to the event that
triggered it.
-/

namespace Noddde

variable {J Infra : Type} {wiring : Wiring J Infra} {workload : Workload J}
  {x : Subject} {u v : UowRef} {s t w : World J}

/-! ## Who contributed -/

/-- Of every dispatch the history knows one command, which runs on one unit of work or
on its own attempts. -/
structure Attributed (w : World J) : Prop where
  started : ∀ task uow task' uow', .started task uow ∈ w.history →
    .started task' uow' ∈ w.history → task.dispatch = task'.dispatch →
      task = task' ∧ uow = uow'
  begun : ∀ task u loaded newEvents events,
    .contributed task u loaded newEvents events ∈ w.history → Begun task u w.history
  created : ∀ task u loaded newEvents events,
    .contributed task u loaded newEvents events ∈ w.history → u.implicit = true →
      (w.uows u).created = true
  length : ∀ task u loaded newEvents events,
    .contributed task u loaded newEvents events ∈ w.history → events.length = newEvents.length

theorem attributed_empty : Attributed ({} : World J) where
  started := by simp
  begun := by simp
  created := by simp
  length := by simp

theorem Begun.mono {task : Task J} {h h' : List (Obs J)} (hbegun : Begun task u h)
    (hsub : h ⊆ h') : Begun task u h' :=
  ⟨hsub hbegun.1, hbegun.2⟩

theorem Step.created_mono [JsValue J] (h : Step wiring x s t)
    (hcreated : (s.uows u).created = true) : (t.uows u).created = true := by
  cases h.uow u with
  | same uow => rw [uow, hcreated]
  | created _ uow => rw [uow]
  | contributed _ eq =>
      subst eq
      rw [World.uows_contributed, Function.update_self]
      exact hcreated
  | enlistedSaga _ _ eq => subst eq; simpa [World.enlistAll] using hcreated
  | committing _ _ _ eq =>
      subst eq
      rw [World.uow_committing]
      exact hcreated
  | ran _ stores eq =>
      subst eq
      rw [stores.uow_ran]
      exact hcreated
  | refused _ refuses eq =>
      subst eq
      rw [refuses.uow_refused]
      exact hcreated
  | committed _ eq =>
      subst eq
      rw [World.uow_committed]
      exact hcreated
  | commitRejected _ _ eq =>
      subst eq
      rw [World.uow_commitRejected]
      exact hcreated
  | rolledBack _ _ eq =>
      subst eq
      rw [World.uow_rolledBack]
      exact hcreated

theorem Attributed.step [JsValue J] (hs : Attributed s) (h : Step wiring x s t) :
    Attributed t where
  started task uow task' uow' hmem hmem' hdispatch := by
    -- a dispatch starts once: nothing is known of it before
    have hfresh : ∀ {task task' : Task J} {uow' : Option UowRef}, Fresh task.dispatch s →
        .started task' uow' ∈ s.history → task.dispatch ≠ task'.dispatch := by
      intro task task' uow' hfresh hmem hdispatch
      have habout : .started task' uow' ∈ about (.call task.dispatch) s.history :=
        (mem_about (by rw [hdispatch]; rfl)).mpr hmem
      rw [hfresh.uncalled] at habout
      cases habout
    rcases h.explained hmem with hold | ⟨⟨hnew, -⟩, heq⟩
    · rcases h.explained hmem' with hold' | ⟨⟨hnew', -⟩, -⟩
      · exact hs.started task uow task' uow' hold hold' hdispatch
      · exact absurd hdispatch.symm (hfresh hnew' hold)
    · rcases List.mem_cons.mp (heq ▸ hmem') with hsame | hold'
      · obtain ⟨rfl, rfl⟩ := Obs.started.inj hsame
        exact ⟨rfl, rfl⟩
      · exact absurd hdispatch (hfresh hnew hold')
  begun task u loaded newEvents events hmem := by
    have hsub := h.adds.grows.subset
    rcases h.explained hmem with hold | ⟨c, uuids, hcontributes, -⟩
    · exact (hs.begun _ _ _ _ _ hold).mono hsub
    · exact hcontributes.begun.mono hsub
  created task u loaded newEvents events hmem hu := by
    apply h.created_mono
    rcases h.explained hmem with hold | ⟨c, uuids, hcontributes, -⟩
    · exact hs.created _ _ _ _ _ hold hu
    · exact hcontributes.created hu
  length task u loaded newEvents events hmem := by
    rcases h.explained hmem with hold | ⟨c, uuids, hcontributes, -, rfl, rfl, -⟩
    · exact hs.length _ _ _ _ _ hold
    · obtain ⟨_, -, henriched, -⟩ := hcontributes.computed.batch
      exact henriched.length_eq

/-- A dispatch has at most one unit of work that commits. -/
theorem Attributed.unit_unique (hs : Attributed s) (hinv : Inv wiring s)
    {task task' : Task J} {loaded loaded' : Loaded J}
    {newEvents newEvents' events events' : List (Event J)}
    (hmem : .contributed task u loaded newEvents events ∈ s.history)
    (hmem' : .contributed task' v loaded' newEvents' events' ∈ s.history)
    (hdispatch : task.dispatch = task'.dispatch) (hu : (s.uows u).outcome = some true)
    (hv : (s.uows v).outcome = some true) : task = task' ∧ u = v := by
  obtain ⟨hstarted, hattempt⟩ := hs.begun _ _ _ _ _ hmem
  obtain ⟨hstarted', hattempt'⟩ := hs.begun _ _ _ _ _ hmem'
  obtain ⟨rfl, hjoined⟩ := hs.started _ _ _ _ hstarted hstarted' hdispatch
  refine ⟨rfl, ?_⟩
  cases himplicit : u.implicit with
  | false =>
      rw [UowRef.joined, UowRef.joined, himplicit] at hjoined
      cases himplicit' : v.implicit with
      | false =>
          rw [himplicit'] at hjoined
          exact Option.some.inj hjoined
      | true =>
          rw [himplicit'] at hjoined
          cases hjoined
  | true =>
      rw [UowRef.joined, UowRef.joined, himplicit] at hjoined
      cases himplicit' : v.implicit with
      | false =>
          rw [himplicit'] at hjoined
          cases hjoined
      | true =>
          obtain ⟨j, rfl⟩ := hattempt himplicit
          obtain ⟨k, rfl⟩ := hattempt' himplicit'
          -- the later attempt only came about because the earlier one failed
          have hlater : ∀ i j, i < j → (s.uows (.attempt task.dispatch i)).outcome = some true →
              (s.uows (.attempt task.dispatch j)).created ≠ true := by
            intro i j hij houtcome hcreated
            have hfailed := hinv.order task.dispatch i j hij hcreated
            rw [houtcome] at hfailed
            cases hfailed
          rcases Nat.lt_trichotomy j k with hjk | rfl | hkj
          · exact absurd (hs.created _ _ _ _ _ hmem' himplicit') (hlater j k hjk hu)
          · rfl
          · exact absurd (hs.created _ _ _ _ _ hmem himplicit) (hlater k j hkj hv)

/-! ## What a dispatch produces -/

/-- A batch that was contributed: by whom, for which command, and to which unit of work. -/
structure ContributedBatch (J : Type) where
  dispatch : Origin
  commandName : String
  uow : UowRef
  events : List (Event J)
  deriving DecidableEq

def batches : List (Obs J) → List (ContributedBatch J)
  | [] => []
  | .contributed task u _ _ events :: rest =>
      ⟨task.dispatch, task.command.name, u, events⟩ :: batches rest
  | _ :: rest => batches rest

theorem mem_batches {batch : ContributedBatch J} {h : List (Obs J)} :
    batch ∈ batches h ↔ ∃ task u loaded newEvents events,
      .contributed task u loaded newEvents events ∈ h ∧
        batch = ⟨task.dispatch, task.command.name, u, events⟩ := by
  induction h with
  | nil => simp [batches]
  | cons o rest ih =>
      cases o with
      | contributed task u loaded newEvents events =>
          rw [batches, List.mem_cons, ih]
          constructor
          · rintro (heq | ⟨task, u, loaded, newEvents, events, hmem, heq⟩)
            · exact ⟨_, _, _, _, _, List.mem_cons_self, heq⟩
            · exact ⟨_, _, _, _, _, List.mem_cons_of_mem _ hmem, heq⟩
          · rintro ⟨task, u, loaded, newEvents, events, hmem, heq⟩
            rcases List.mem_cons.mp hmem with hnote | hmem
            · obtain ⟨rfl, rfl, -, -, rfl⟩ := Obs.contributed.inj hnote
              exact .inl heq
            · exact .inr ⟨_, _, _, _, _, hmem, heq⟩
      | _ => simp [batches, ih]

/-- The event was contributed by the dispatch to a unit of work that has committed. -/
def ProducedBy (d : Origin) (event : Event J) (w : World J) : Prop :=
  ∃ task u loaded newEvents events,
    .contributed task u loaded newEvents events ∈ w.history ∧ task.dispatch = d ∧
      event ∈ events ∧ (w.uows u).outcome = some true

theorem producedBy_of_mem_batches {batch : ContributedBatch J} {event : Event J}
    (hbatch : batch ∈ batches w.history) (hevent : event ∈ batch.events)
    (hu : (w.uows batch.uow).outcome = some true) : ProducedBy batch.dispatch event w := by
  obtain ⟨task, u, loaded, newEvents, events, hmem, rfl⟩ := mem_batches.mp hbatch
  exact ⟨task, u, loaded, newEvents, events, hmem, rfl, hevent, hu⟩

section Runs

variable [JsValue J] {C : World J → World J → Prop} {q : Process J Infra}

theorem attributed_of_run (hrun : Pool.Run C (boot wiring workload) q) :
    Attributed q.state :=
  steps_induction wiring hrun attributed_empty fun _ _ _ _ _ h hs => hs.step h

/-- All that a dispatch produces is of one batch. -/
theorem batch_unique (hrun : Pool.Run C (boot wiring workload) q)
    {task task' : Task J} {loaded loaded' : Loaded J}
    {newEvents newEvents' events events' : List (Event J)}
    (hmem : .contributed task u loaded newEvents events ∈ q.state.history)
    (hmem' : .contributed task' v loaded' newEvents' events' ∈ q.state.history)
    (hdispatch : task.dispatch = task'.dispatch)
    (hu : (q.state.uows u).outcome = some true) (hv : (q.state.uows v).outcome = some true)
    (hevents : events ≠ []) (hevents' : events' ≠ []) : events = events' := by
  have hattributed := attributed_of_run hrun
  have hversioned := versioned_of_run hrun
  obtain ⟨rfl, rfl⟩ := hattributed.unit_unique (inv_of_run wiring hrun) hmem hmem' hdispatch hu hv
  have hadvance : ∀ {loaded : Loaded J} {newEvents events : List (Event J)},
      .contributed task u loaded newEvents events ∈ q.state.history → events ≠ [] →
      ∃ a ∈ (Obs.contributed task u loaded newEvents events).advance? u,
        a.slot = (wiring.sourced task.aggregateName, task.key) := by
    intro loaded newEvents events hmem hevents
    have hlength := hattributed.length _ _ _ _ _ hmem
    have hsourced := (hversioned.loaded _ _ _ (hversioned.contributed _ _ _ _ _ hmem)).1
    rw [Obs.advance?, if_pos rfl, Loaded.advance?, ← hsourced]
    cases loaded.isEventSourced with
    | false => exact ⟨_, rfl, rfl⟩
    | true =>
        have hpos : newEvents.length ≠ 0 := by
          rw [← hlength]
          exact fun hzero => hevents (List.length_eq_zero_iff.mp hzero)
        rw [advanceOf, if_pos rfl, if_neg hpos]
        exact ⟨_, rfl, rfl⟩
  obtain ⟨a, ha, hslot⟩ := hadvance hmem hevents
  obtain ⟨a', ha', hslot'⟩ := hadvance hmem' hevents'
  have hnotes := contributed_once hrun hu hmem hmem' ha ha' (hslot.trans hslot'.symm)
  exact (Obs.contributed.inj hnotes).2.2.2.2

/-- The events that a root dispatch brings about: those that it produces, and those of
the commands that sagas dispatch in reaction to one of them. -/
inductive Descends (workload : Workload J) (w : World J) (root : Origin) : Event J → Prop
  | produced {event : Event J} (produced : ProducedBy root event w) :
      Descends workload w root event
  | reacted {event : Event J} {call : SagaCall J} {n index : Nat} {task : Task J} {u : UowRef}
      {loaded : Loaded J} {newEvents events : List (Event J)}
      (trigger : Descends workload w root call.event) (reaction : workload.sagas n = some call)
      (contributed : .contributed task u loaded newEvents events ∈ w.history)
      (dispatch : task.dispatch = .reaction n index) (mem : event ∈ events) :
      Descends workload w root event

omit [JsValue J] in
theorem SagaContext.stamped {trigger : Event J} {ctx : MetadataContext}
    {causationFallback : String} {events : List (Event J)} {metadata : EventMetadata}
    (hctx : SagaContext trigger ctx) (hmetadata : trigger.metadata = some metadata)
    (h : Stamped wiring (some ctx) causationFallback events) :
    ∀ event ∈ events, ∃ stamped, event.metadata = some stamped ∧
      stamped.correlationId = metadata.correlationId ∧
      stamped.causationId = metadata.eventId ∧ stamped.userId = metadata.userId := by
  obtain ⟨correlationId, hcorrelation, rfl⟩ := hctx
  obtain ⟨c, providerCtx, correlationId', -, hid, hstamped⟩ := h
  intro event hevent
  obtain ⟨stamped, heq, hcorrelated, hcausation, huser⟩ := hstamped event hevent
  refine ⟨stamped, heq, ?_, ?_, ?_⟩
  · rw [hcorrelated, hid correlationId rfl]
    exact hcorrelation metadata hmetadata
  · rw [hcausation]
    show trigger.eventId?.getD trigger.name = metadata.eventId
    rw [Event.eventId?, hmetadata]
    rfl
  · rw [huser]
    show trigger.metadata.bind (·.userId) = metadata.userId
    rw [hmetadata]
    rfl

/-- The events of a reaction carry the correlation id and the user of their trigger, and
its event id as their causation id. -/
theorem reaction_stamped (hrun : Pool.Reaches (boot wiring workload) q) {n index : Nat}
    {call : SagaCall J} (hcall : workload.sagas n = some call) {metadata : EventMetadata}
    (hmetadata : call.event.metadata = some metadata) {task : Task J} {loaded : Loaded J}
    {newEvents events : List (Event J)}
    (hmem : .contributed task u loaded newEvents events ∈ q.state.history)
    (hdispatch : task.dispatch = .reaction n index) :
    ∀ event ∈ events, ∃ stamped, event.metadata = some stamped ∧
      stamped.correlationId = metadata.correlationId ∧
      stamped.causationId = metadata.eventId ∧ stamped.userId = metadata.userId := by
  have hcaused := caused_of_reaches wiring workload hrun hmem
  rw [Caused, hdispatch] at hcaused
  obtain ⟨call', ctx, hcall', hctx, hstamped⟩ := hcaused
  obtain rfl := Option.some.inj (hcall.symm.trans hcall')
  exact hctx.stamped hmetadata hstamped

omit [JsValue J] in
theorem Caused.stamped {task : Task J} {events : List (Event J)}
    (h : Caused wiring workload task events) :
    ∃ override, Stamped wiring override task.command.name events := by
  unfold Caused at h
  split at h
  · obtain ⟨call, -, -, hstamped⟩ := h
    exact ⟨_, hstamped⟩
  · obtain ⟨call, -, hstamped⟩ := h
    exact ⟨_, hstamped⟩
  · obtain ⟨call, ctx, -, -, hstamped⟩ := h
    exact ⟨_, hstamped⟩

/-- All that a dispatch produces carries one correlation id. -/
theorem produced_correlated (hrun : Pool.Reaches (boot wiring workload) q) (d : Origin) :
    ∃ correlationId, ∀ event, ProducedBy d event q.state →
      ∃ metadata, event.metadata = some metadata ∧ metadata.correlationId = correlationId := by
  by_cases hproduced : ∃ event, ProducedBy d event q.state
  · obtain ⟨first, task, u, loaded, newEvents, events, hmem, hdispatch, hfirst, hu⟩ := hproduced
    obtain ⟨override, c, providerCtx, correlationId, -, -, hstamped⟩ :=
      (caused_of_reaches wiring workload hrun hmem).stamped
    refine ⟨correlationId, ?_⟩
    rintro event ⟨task', v, loaded', newEvents', events', hmem', hdispatch', hevent, hv⟩
    have hbatch : events = events' :=
      batch_unique hrun hmem hmem' (hdispatch.trans hdispatch'.symm) hu hv
        (List.ne_nil_of_mem hfirst) (List.ne_nil_of_mem hevent)
    obtain ⟨metadata, heq, hcorrelated, -⟩ := hstamped event (hbatch ▸ hevent)
    exact ⟨metadata, heq, hcorrelated⟩
  · exact ⟨"", fun event h => absurd ⟨event, h⟩ hproduced⟩

/-- Correlation never breaks. -/
theorem correlation_unbroken (hrun : Pool.Reaches (boot wiring workload) q) :
    (∀ root, ∃ correlationId, ∀ event, Descends workload q.state root event →
      ∃ metadata, event.metadata = some metadata ∧ metadata.correlationId = correlationId) ∧
    ∀ n index call metadata, workload.sagas n = some call → call.event.metadata = some metadata →
      ∀ task u loaded newEvents events,
        .contributed task u loaded newEvents events ∈ q.state.history →
        task.dispatch = .reaction n index →
        ∀ event ∈ events, ∃ stamped, event.metadata = some stamped ∧
          stamped.correlationId = metadata.correlationId ∧
          stamped.causationId = metadata.eventId ∧ stamped.userId = metadata.userId := by
  refine ⟨fun root => ?_, ?_⟩
  · obtain ⟨correlationId, hproduced⟩ := produced_correlated hrun root
    refine ⟨correlationId, fun event hevent => ?_⟩
    -- along the reactions that lead from the root to the event
    induction hevent with
    | produced produced => exact hproduced _ produced
    | reacted trigger reaction contributed dispatch mem ih =>
        obtain ⟨metadata, hmetadata, hcorrelated⟩ := ih
        obtain ⟨stamped, heq, hstamped, -⟩ :=
          reaction_stamped hrun reaction hmetadata contributed dispatch _ mem
        exact ⟨stamped, heq, hstamped.trans hcorrelated⟩
  · intro n index call metadata hcall hmetadata task u loaded newEvents events hmem hdispatch
    exact reaction_stamped hrun hcall hmetadata hmem hdispatch

end Runs

/-- A counter is added to, and a saga relays what it emits to another one. -/
theorem correlation_unbroken_relayed :
    let workload := Sample.work [Sample.call (Sample.add "a" (some 2))] []
      [⟨{}, "Relay", Sample.added "a" "x" "Add" (some 2)⟩]
    ∃ q, Pool.play (Sample.turns (.command 0) 11 ++ Sample.turns (.saga 0) 23)
        (boot Sample.relaying workload) = some q ∧
      batches q.state.history =
        [⟨.reaction 0 0, "Add", .saga 0, [Sample.added "b" "xx" "x" (some 1)]⟩,
          ⟨.command 0, "Add", .attempt (.command 0) 0,
            [Sample.added "a" "x" "Add" (some 2)]⟩] ∧
      ∃ correlationId, ∀ event, Descends workload q.state (.command 0) event →
        ∃ metadata, event.metadata = some metadata ∧ metadata.correlationId = correlationId := by
  intro workload
  have hplay : (Pool.play (Sample.turns (.command 0) 11 ++ Sample.turns (.saga 0) 23)
      (boot Sample.relaying workload)).map (fun q => batches q.state.history) =
        some [⟨.reaction 0 0, "Add", .saga 0, [Sample.added "b" "xx" "x" (some 1)]⟩,
          ⟨.command 0, "Add", .attempt (.command 0) 0,
            [Sample.added "a" "x" "Add" (some 2)]⟩] := by
    decide +kernel
  obtain ⟨q, hq, hbatches⟩ := Option.map_eq_some_iff.mp hplay
  have hrun := Pool.run_of_play (fun _ _ => trivial) hq
  exact ⟨q, hq, hbatches, (correlation_unbroken hrun).1 (.command 0)⟩

end Noddde
