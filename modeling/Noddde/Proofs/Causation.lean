import Noddde.Proofs.Correlation
/-!
# Causation ids

Where nobody supplies a causation id, the enricher falls back on the name of the
command.  Causation ids tell dispatches apart as long as these names do.
-/

namespace Noddde

variable {J Infra : Type} {wiring : Wiring J Infra} {workload : Workload J} {u : UowRef}
  {w : World J}

/-! ## Where a causation id comes from -/

def MetadataContext.WithoutCausation (ctx : MetadataContext) : Prop :=
  ctx.causationId.getD none = none

/-- No caller supplies a causation id, neither through a metadata context nor through the
metadata provider. -/
structure CausationUnsupplied (wiring : Wiring J Infra) (workload : Workload J) : Prop where
  provider : ∀ provide ∈ wiring.metadataProvider, ∀ infra ctx, provide infra = .ok ctx →
    ctx.WithoutCausation
  commands : ∀ n, ∀ call ∈ workload.commands n, ∀ ctx ∈ call.ambient.metadata,
    ctx.WithoutCausation
  scopes : ∀ n, ∀ call ∈ workload.scopes n, ∀ ctx ∈ call.ambient.metadata,
    ctx.WithoutCausation

def Workload.trigger? (workload : Workload J) : Origin → Option (Event J)
  | .reaction n _ => (workload.sagas n).map (·.event)
  | _ => none

def Event.identifier (event : Event J) : String := event.eventId?.getD event.name

def Workload.causationOf (workload : Workload J) (d : Origin) (commandName : String) : String :=
  match workload.trigger? d with
  | some trigger => trigger.identifier
  | none => commandName

/-- The same dispatch, or dispatches in reaction to the same event. -/
def Workload.SameCause (workload : Workload J) (d d' : Origin) : Prop :=
  d = d' ∨ ∃ trigger trigger' eventId, workload.trigger? d = some trigger ∧
    workload.trigger? d' = some trigger' ∧ trigger.eventId? = some eventId ∧
    trigger'.eventId? = some eventId

/-- The dispatch of a command of this name has produced events. -/
def Producer (d : Origin) (commandName : String) (w : World J) : Prop :=
  ∃ batch ∈ batches w.history, batch.dispatch = d ∧ batch.commandName = commandName ∧
    batch.events ≠ [] ∧ (w.uows batch.uow).outcome = some true

theorem providerContext_withoutCausation (h : CausationUnsupplied wiring workload)
    {c : Choice Infra} {ctx : MetadataContext} (hctx : providerContext wiring c = .ok ctx) :
    ctx.WithoutCausation := by
  unfold providerContext at hctx
  cases hprovider : wiring.metadataProvider with
  | none =>
      rw [hprovider] at hctx
      obtain rfl := Except.ok.inj hctx
      rfl
  | some provide =>
      rw [hprovider] at hctx
      exact h.provider provide hprovider c.infra ctx hctx

theorem MetadataContext.withoutCausation_merge {provider override : MetadataContext}
    (hprovider : provider.WithoutCausation) (hoverride : override.WithoutCausation) :
    (provider.merge override).WithoutCausation := by
  unfold WithoutCausation at *
  rw [merge]
  cases hid : override.causationId with
  | none => exact hprovider
  | some id =>
      rw [hid] at hoverride
      exact hoverride

/-- Without a causation id in the context, the fallback is used. -/
theorem Stamped.causation {override : Option MetadataContext} {causationFallback : String}
    {events : List (Event J)} (h : Stamped wiring override causationFallback events)
    (hunsupplied : CausationUnsupplied wiring workload)
    (hoverride : ∀ ctx ∈ override, ctx.WithoutCausation) :
    ∀ event ∈ events, ∃ metadata, event.metadata = some metadata ∧
      metadata.causationId = causationFallback := by
  obtain ⟨c, providerCtx, correlationId, hprovider, -, hstamped⟩ := h
  intro event hevent
  obtain ⟨metadata, heq, -, hcausation, -⟩ := hstamped event hevent
  refine ⟨metadata, heq, ?_⟩
  have hnone : (override.getD {}).WithoutCausation := by
    cases override with
    | none => rfl
    | some ctx => exact hoverride ctx rfl
  have hmerged := MetadataContext.withoutCausation_merge
    (providerContext_withoutCausation hunsupplied hprovider) hnone
  rw [hcausation, hmerged]
  rfl

/-- In a reaction, the identifier of the trigger is used. -/
theorem SagaContext.causation {trigger : Event J} {ctx : MetadataContext}
    {causationFallback : String} {events : List (Event J)} (hctx : SagaContext trigger ctx)
    (h : Stamped wiring (some ctx) causationFallback events) :
    ∀ event ∈ events, ∃ metadata, event.metadata = some metadata ∧
      metadata.causationId = trigger.identifier := by
  obtain ⟨correlationId, -, rfl⟩ := hctx
  obtain ⟨c, providerCtx, correlationId', -, -, hstamped⟩ := h
  intro event hevent
  obtain ⟨metadata, heq, -, hcausation, -⟩ := hstamped event hevent
  exact ⟨metadata, heq, hcausation⟩

section Runs

variable [JsValue J] {q : Process J Infra}

theorem causation_of_contributed (hunsupplied : CausationUnsupplied wiring workload)
    (hrun : Pool.Reaches (boot wiring workload) q) {task : Task J} {loaded : Loaded J}
    {newEvents events : List (Event J)}
    (hmem : .contributed task u loaded newEvents events ∈ q.state.history) :
    ∀ event ∈ events, ∃ metadata, event.metadata = some metadata ∧
      metadata.causationId = workload.causationOf task.dispatch task.command.name := by
  have hcaused := caused_of_reaches wiring workload hrun hmem
  unfold Caused at hcaused
  match hdispatch : task.dispatch with
  | .command n =>
      rw [hdispatch] at hcaused
      obtain ⟨call, hcall, -, hstamped⟩ := hcaused
      exact hstamped.causation hunsupplied (hunsupplied.commands n call hcall)
  | .scoped n index =>
      rw [hdispatch] at hcaused
      obtain ⟨call, hcall, hstamped⟩ := hcaused
      exact hstamped.causation hunsupplied (hunsupplied.scopes n call hcall)
  | .reaction n index =>
      rw [hdispatch] at hcaused
      obtain ⟨call, ctx, hcall, hctx, hstamped⟩ := hcaused
      rw [Workload.causationOf, Workload.trigger?, hcall]
      exact hctx.causation hstamped

/-- An event and the causation id that its dispatch gives it. -/
theorem ProducedBy.causation (hunsupplied : CausationUnsupplied wiring workload)
    (hrun : Pool.Reaches (boot wiring workload) q) {d : Origin} {event : Event J}
    (h : ProducedBy d event q.state) : ∃ name, Producer d name q.state ∧
      ∃ metadata, event.metadata = some metadata ∧
        metadata.causationId = workload.causationOf d name := by
  obtain ⟨task, u, loaded, newEvents, events, hmem, rfl, hevent, hu⟩ := h
  refine ⟨task.command.name, ?_, ?_⟩
  · refine ⟨⟨task.dispatch, task.command.name, u, events⟩, ?_, rfl, rfl, ?_, hu⟩
    · exact mem_batches.mpr ⟨task, u, loaded, newEvents, events, hmem, rfl⟩
    · exact List.ne_nil_of_mem hevent
  · exact causation_of_contributed hunsupplied hrun hmem event hevent

omit [JsValue J] in
theorem Producer.producedBy {d : Origin} {name : String} (h : Producer d name w) :
    ∃ event, ProducedBy d event w ∧ ∃ task u loaded newEvents events,
      .contributed task u loaded newEvents events ∈ w.history ∧ event ∈ events ∧
        task.dispatch = d ∧ task.command.name = name := by
  obtain ⟨batch, hbatch, hd, hname, hevents, hu⟩ := h
  obtain ⟨task, u, loaded, newEvents, events, hmem, rfl⟩ := mem_batches.mp hbatch
  obtain ⟨event, hevent⟩ := List.exists_mem_of_ne_nil _ hevents
  exact ⟨event, ⟨task, u, loaded, newEvents, events, hmem, hd, hevent, hu⟩,
    task, u, loaded, newEvents, events, hmem, hevent, hd, hname⟩

end Runs

/-! ## Telling dispatches apart -/

/-- The names of the commands tell the dispatches that have produced events apart. -/
structure NamedApart (workload : Workload J) (w : World J) : Prop where
  /-- Separate root dispatches are of differently named commands. -/
  roots : ∀ d d' name, Producer d name w → Producer d' name w →
    workload.trigger? d = none → workload.trigger? d' = none → d = d'
  /-- No root command is named like an event that a saga reacts to is identified. -/
  reactions : ∀ d d' name name' trigger, Producer d name w → Producer d' name' w →
    workload.trigger? d = none → workload.trigger? d' = some trigger →
      name ≠ trigger.identifier
  /-- A trigger without an event id has a name that identifies no other trigger. -/
  triggers : ∀ d d' name name' trigger trigger', Producer d name w → Producer d' name' w →
    workload.trigger? d = some trigger → workload.trigger? d' = some trigger' → d ≠ d' →
      trigger.eventId? = none → trigger.identifier ≠ trigger'.identifier

theorem NamedApart.sameCause (h : NamedApart workload w) {d d' : Origin} {name name' : String}
    (hd : Producer d name w) (hd' : Producer d' name' w)
    (heq : workload.causationOf d name = workload.causationOf d' name') :
    workload.SameCause d d' := by
  unfold Workload.causationOf at heq
  cases htrigger : workload.trigger? d with
  | none =>
      rw [htrigger] at heq
      cases htrigger' : workload.trigger? d' with
      | none =>
          rw [htrigger'] at heq
          obtain rfl : name = name' := heq
          exact .inl (h.roots d d' name hd hd' htrigger htrigger')
      | some trigger' =>
          rw [htrigger'] at heq
          exact absurd heq (h.reactions d d' name name' trigger' hd hd' htrigger htrigger')
  | some trigger =>
      rw [htrigger] at heq
      cases htrigger' : workload.trigger? d' with
      | none =>
          rw [htrigger'] at heq
          exact absurd heq.symm (h.reactions d' d name' name trigger hd' hd htrigger' htrigger)
      | some trigger' =>
          rw [htrigger'] at heq
          by_cases hdd : d = d'
          · exact .inl hdd
          · cases hid : trigger.eventId? with
            | none =>
                exact absurd heq
                  (h.triggers d d' name name' trigger trigger' hd hd' htrigger htrigger' hdd hid)
            | some eventId =>
                cases hid' : trigger'.eventId? with
                | none =>
                    exact absurd heq.symm (h.triggers d' d name' name trigger' trigger hd' hd
                      htrigger' htrigger (Ne.symm hdd) hid')
                | some eventId' =>
                    have hidentifier : trigger.identifier = trigger'.identifier := heq
                    rw [Event.identifier, Event.identifier, hid, hid'] at hidentifier
                    obtain rfl : eventId = eventId' := hidentifier
                    exact .inr ⟨trigger, trigger', eventId, htrigger, htrigger', hid, hid'⟩

/-- Conversely, dispatches that are told apart by their causation ids are named apart. -/
theorem NamedApart.of_sameCause
    (h : ∀ d d' name name', Producer d name w → Producer d' name' w →
      workload.causationOf d name = workload.causationOf d' name' → workload.SameCause d d') :
    NamedApart workload w where
  roots d d' name hd hd' htrigger htrigger' := by
    rcases h d d' name name hd hd' (by simp [Workload.causationOf, htrigger, htrigger']) with
      hsame | ⟨_, _, _, hnone, -⟩
    · exact hsame
    · rw [htrigger] at hnone
      cases hnone
  reactions d d' name name' trigger hd hd' htrigger htrigger' heq := by
    rcases h d d' name name' hd hd' (by simp [Workload.causationOf, htrigger, htrigger', heq])
      with rfl | ⟨_, _, _, hnone, -⟩
    · rw [htrigger] at htrigger'
      cases htrigger'
    · rw [htrigger] at hnone
      cases hnone
  triggers d d' name name' trigger trigger' hd hd' htrigger htrigger' hdd hid heq := by
    rcases h d d' name name' hd hd' (by simp [Workload.causationOf, htrigger, htrigger', heq])
      with hsame | ⟨_, _, eventId, hsome, -, hevent, -⟩
    · exact hdd hsame
    · rw [htrigger] at hsome
      rw [← Option.some.inj hsome, hid] at hevent
      cases hevent

section Runs

variable [JsValue J] {q : Process J Infra}

/-- Where nobody supplies a causation id, equal causation ids mean equal causes if and only
if the names of the commands tell the dispatches apart. -/
theorem causation_identifies_iff (hunsupplied : CausationUnsupplied wiring workload)
    (hrun : Pool.Reaches (boot wiring workload) q) :
    (∀ d d' event event' metadata metadata', ProducedBy d event q.state →
      ProducedBy d' event' q.state → event.metadata = some metadata →
      event'.metadata = some metadata' → metadata.causationId = metadata'.causationId →
        workload.SameCause d d') ↔
    NamedApart workload q.state := by
  constructor
  · intro h
    apply NamedApart.of_sameCause
    intro d d' name name' hd hd' heq
    obtain ⟨event, hproduced, task, u, loaded, newEvents, events, hmem, hevent, rfl, rfl⟩ :=
      hd.producedBy
    obtain ⟨event', hproduced', task', u', loaded', newEvents', events', hmem', hevent', rfl,
      rfl⟩ := hd'.producedBy
    obtain ⟨metadata, hmetadata, hcausation⟩ :=
      causation_of_contributed hunsupplied hrun hmem event hevent
    obtain ⟨metadata', hmetadata', hcausation'⟩ :=
      causation_of_contributed hunsupplied hrun hmem' event' hevent'
    refine h _ _ event event' metadata metadata' hproduced hproduced' hmetadata hmetadata' ?_
    rw [hcausation, hcausation', heq]
  · intro h d d' event event' metadata metadata' hd hd' hmetadata hmetadata' heq
    obtain ⟨name, hproducer, stamped, hstamped, hcausation⟩ := hd.causation hunsupplied hrun
    obtain ⟨name', hproducer', stamped', hstamped', hcausation'⟩ :=
      hd'.causation hunsupplied hrun
    obtain rfl := Option.some.inj (hmetadata.symm.trans hstamped)
    obtain rfl := Option.some.inj (hmetadata'.symm.trans hstamped')
    apply h.sameCause hproducer hproducer'
    rw [← hcausation, ← hcausation', heq]

end Runs

theorem Sample.causationUnsupplied (sagas : List (SagaCall Sample.Value))
    (commands : List (Command Sample.Value)) :
    CausationUnsupplied Sample.relaying
      (Sample.work (commands.map Sample.call) [] sagas) where
  provider _ h := by cases h
  commands n call hcall ctx hctx := by
    simp only [Sample.work, List.getElem?_map, Option.mem_def, Option.map_eq_some_iff] at hcall
    obtain ⟨command, -, rfl⟩ := hcall
    cases hctx
  scopes n call hcall := by simp [Sample.work] at hcall

/-- The event of the root command and that of the reaction to it. -/
theorem causation_identifies_iff_relayed :
    let workload := Sample.work [Sample.call (Sample.add "a" (some 2))] []
      [⟨{}, "Relay", Sample.added "a" "x" "Add" (some 2)⟩]
    ∃ q, Pool.play (Sample.turns (.command 0) 11 ++ Sample.turns (.saga 0) 23)
        (boot Sample.relaying workload) = some q ∧
      ∀ d d' event event' metadata metadata', ProducedBy d event q.state →
        ProducedBy d' event' q.state → event.metadata = some metadata →
        event'.metadata = some metadata' → metadata.causationId = metadata'.causationId →
          workload.SameCause d d' := by
  intro workload
  have hplay : (Pool.play (Sample.turns (.command 0) 11 ++ Sample.turns (.saga 0) 23)
      (boot Sample.relaying workload)).map
        (fun q => (batches q.state.history).map fun batch => (batch.dispatch, batch.commandName)) =
          some [(.reaction 0 0, "Add"), (.command 0, "Add")] := by
    decide +kernel
  obtain ⟨q, hq, hbatches⟩ := Option.map_eq_some_iff.mp hplay
  have hrun := Pool.run_of_play (C := fun _ _ => True) (fun _ _ => trivial) hq
  have hproducer : ∀ {d name}, Producer d name q.state →
      (d = .reaction 0 0 ∨ d = .command 0) ∧ name = "Add" := by
    rintro d name ⟨batch, hbatch, rfl, rfl, -⟩
    have hmem := List.mem_map_of_mem (f := fun batch : ContributedBatch Sample.Value =>
      (batch.dispatch, batch.commandName)) hbatch
    rw [hbatches] at hmem
    simp only [List.mem_cons, Prod.mk.injEq, List.not_mem_nil, or_false] at hmem
    rcases hmem with ⟨hd, hname⟩ | ⟨hd, hname⟩
    · exact ⟨.inl hd, hname⟩
    · exact ⟨.inr hd, hname⟩
  refine ⟨q, hq, (causation_identifies_iff
    (Sample.causationUnsupplied [_] [Sample.add "a" (some 2)]) hrun).mpr ⟨?_, ?_, ?_⟩⟩
  · intro d d' name hd hd' htrigger htrigger'
    rcases (hproducer hd).1 with rfl | rfl
    · cases htrigger
    · rcases (hproducer hd').1 with rfl | rfl
      · cases htrigger'
      · rfl
  · intro d d' name name' trigger hd hd' htrigger htrigger'
    obtain ⟨rfl | rfl, rfl⟩ := hproducer hd
    · cases htrigger
    · rcases (hproducer hd').1 with rfl | rfl
      · obtain rfl := Option.some.inj htrigger'
        decide
      · cases htrigger'
  · intro d d' name name' trigger trigger' hd hd' htrigger htrigger' hdd hid
    rcases (hproducer hd).1 with rfl | rfl
    · obtain rfl := Option.some.inj htrigger
      cases hid
    · cases htrigger

/-- Two commands with ids of their own, both named `Add`, to two counters. -/
theorem causation_shared :
    ¬ ∀ (wiring : Wiring Sample.Value Unit) (workload : Workload Sample.Value)
      (q : Process Sample.Value Unit), CausationUnsupplied wiring workload →
      Pool.Reaches (boot wiring workload) q →
      ∀ d d' event event' metadata metadata', ProducedBy d event q.state →
        ProducedBy d' event' q.state → event.metadata = some metadata →
        event'.metadata = some metadata' → metadata.causationId = metadata'.causationId →
          workload.SameCause d d' := by
  intro h
  let commands : List (Command Sample.Value) :=
    [⟨"Add", some (some 2), some (.string "1"), .string "a"⟩,
      ⟨"Add", some (some 3), some (.string "2"), .string "b"⟩]
  have hplay : (Pool.play (Sample.turns (.command 0) 11 ++ Sample.turns (.command 1) 11)
      (boot Sample.relaying (Sample.work (commands.map Sample.call)))).map
        (fun q => (batches q.state.history,
          (q.state.uows (.attempt (.command 0) 0)).outcome,
          (q.state.uows (.attempt (.command 1) 0)).outcome)) =
      some ([⟨.command 1, "Add", .attempt (.command 1) 0,
          [{ Sample.added "b" "xxx" "Add" (some 3) with
            metadata := (Sample.added "b" "xxx" "Add" (some 3)).metadata.map fun metadata =>
              { metadata with correlationId := "xx" } }]⟩,
        ⟨.command 0, "Add", .attempt (.command 0) 0,
          [Sample.added "a" "x" "Add" (some 2)]⟩], some true, some true) := by
    decide +kernel
  obtain ⟨q, hq, hbatches⟩ := Option.map_eq_some_iff.mp hplay
  simp only [Prod.mk.injEq] at hbatches
  obtain ⟨hbatches, hfirst, hsecond⟩ := hbatches
  have hrun := Pool.run_of_play (C := fun _ _ => True) (fun _ _ => trivial) hq
  have hproduced := producedBy_of_mem_batches (w := q.state) (by rw [hbatches]; exact .head _)
    (.head _) hsecond
  have hproduced' := producedBy_of_mem_batches (w := q.state)
    (by rw [hbatches]; exact .tail _ (.head _)) (.head _) hfirst
  have hsame := h _ _ q (Sample.causationUnsupplied [] commands) hrun _ _ _ _ _ _ hproduced
    hproduced' rfl rfl rfl
  rcases hsame with hsame | ⟨_, _, _, htrigger, -⟩
  · cases hsame
  · cases htrigger

end Noddde
