import Noddde.Proofs.Causality
import Noddde.Proofs.Replay
/-!
# The order of the bus

Projections dispatch nothing, so that the order in which the bus is given events does
not depend on where their handlers stand: a run with rebuilds is matched by one
without.
-/

namespace Noddde.Delivery

open ReadModel (Handler Registry)

variable {J Infra : Type} {domain : Domain J Infra} {s t : State J Infra} {c : Choice J Infra}

/-! ## Runs without projections -/

def others (handlers : List Handler) : List Handler :=
  handlers.filter fun handler => (projectionOf handler).isNone

def Frame.erase : Frame J Infra → Frame J Infra
  | .dispatch event handlers => .dispatch event (others handlers)
  | frame => frame

/-- The state without the projections. -/
def State.erase (s : State J Infra) : State J Infra :=
  { s with
    handlers := fun eventName => others (s.handlers eventName)
    stack := s.stack.map Frame.erase
    received := s.received.filter fun call => (projectionOf call.1).isNone }

theorem executeSaga_erase (domain : Domain J Infra) (c : Choice J Infra) (sagaName : String)
    (event : Emitted J) (s : State J Infra) :
    executeSaga domain c sagaName event s.erase =
      (executeSaga domain c sagaName event s).erase := by
  unfold executeSaga
  dsimp only [State.erase]
  split
  · rfl
  · split
    · rfl
    · split
      · rfl
      · split
        · rfl
        · split
          · rfl
          · split
            · rfl
            · rfl

theorem dispatchCommand_erase (domain : Domain J Infra) (c : Choice J Infra)
    (trigger : Option (Emitted J)) (uow : Option (SagaUow J)) (command : Command J)
    (next : Except Err Unit → Infra → Script J Infra) (rest : List (Frame J Infra))
    (s : State J Infra) :
    dispatchCommand domain c trigger uow command next (rest.map Frame.erase) s.erase =
      (dispatchCommand domain c trigger uow command next rest s).erase := by
  unfold dispatchCommand
  dsimp only [State.erase]
  split
  · rfl
  · rfl
  · split
    · rfl
    · cases uow with
      | some uow => rfl
      | none =>
          dsimp only
          split
          · rfl
          · rfl

theorem commitSaga_erase (trigger : Option (Emitted J)) (uow : SagaUow J)
    (s : State J Infra) :
    commitSaga trigger uow s.erase = (commitSaga trigger uow s).erase := by
  unfold commitSaga
  dsimp only [State.erase]
  split
  · rfl
  · split
    · rfl
    · rfl

theorem deliver_erase (c : Choice J Infra) {handler : Handler} {event : Emitted J}
    (hhandler : projectionOf handler = none) (s : State J Infra) :
    deliver domain c handler event s.erase = (deliver domain c handler event s).erase := by
  have hreceived : { s.erase with received := (handler, event) :: s.erase.received } =
      { s with received := (handler, event) :: s.received }.erase := by
    dsimp only [State.erase]
    rw [List.filter_cons_of_pos (by simp [hhandler])]
  unfold deliver
  dsimp only
  rw [hreceived]
  cases handler with
  | projection => cases hhandler
  | saga sagaName eventName => exact executeSaga_erase domain c sagaName event _
  | standalone => rfl

def Ready (s : State J Infra) : Prop :=
  ∀ event handler handlers rest, s.stack = .dispatch event (handler :: handlers) :: rest →
    projectionOf handler = none

theorem next_erase (hready : Ready s) :
    next domain c s.erase = (next domain c s).map State.erase := by
  unfold next
  have hstack : s.erase.stack = s.stack.map Frame.erase := rfl
  cases hs : s.stack with
  | nil => rw [hstack, hs]; rfl
  | cons frame rest =>
      rw [hstack, hs, List.map_cons]
      cases frame with
      | publish events =>
          cases events with
          | nil => rfl
          | cons event events => rfl
      | dispatch event handlers =>
          cases handlers with
          | nil => rfl
          | cons handler handlers =>
              have hhandler := hready event handler handlers rest hs
              have hframe : (Frame.dispatch event (handler :: handlers) : Frame J Infra).erase =
                  .dispatch event (handler :: others handlers) := by
                rw [Frame.erase, others, List.filter_cons_of_pos (by simp [hhandler])]
                rfl
              rw [hframe]
              exact congrArg some (deliver_erase c hhandler
                { s with stack := .dispatch event handlers :: rest })
      | running trigger uow script =>
          cases script with
          | dispatchCommand command next =>
              exact congrArg some (dispatchCommand_erase ..)
          | settle outcome =>
              cases outcome with
              | error error => cases uow <;> rfl
              | ok result =>
                  cases uow with
                  | none => rfl
                  | some uow => exact congrArg some (commitSaga_erase trigger uow { s with stack := rest })

theorem next_of_projection (domain : Domain J Infra) (c : Choice J Infra) {event : Emitted J}
    {handler : Handler} {handlers : List Handler} {rest : List (Frame J Infra)}
    (hstack : s.stack = .dispatch event (handler :: handlers) :: rest)
    (hhandler : (projectionOf handler).isSome) :
    ∃ t, next domain c s = some t ∧ t.stack = .dispatch event handlers :: rest ∧
      t.handlers = s.handlers ∧ t.erase = s.erase := by
  cases handler with
  | saga => cases hhandler
  | standalone => cases hhandler
  | projection name eventName =>
      refine ⟨
        { s with
          stack := .dispatch event handlers :: rest
          received := (.projection name eventName, event) :: s.received },
        ?_, rfl, rfl, ?_⟩
      · rw [next, hstack]
        rfl
      dsimp only [State.erase]
      rw [hstack]
      rfl

theorem next_handlers (h : next domain c s = some t) : t.handlers = s.handlers := by
  have hstep : step domain s (.next c) = some t := h
  have hmove := step_move hstep
  cases hmove with
  | rebuild hidle =>
      rw [next, hidle] at h
      cases h
  | _ => rfl

/-! ## Rebuilds -/

theorem others_erase {handler : Handler} (hhandler : (projectionOf handler).isSome)
    (handlers : List Handler) : others (handlers.erase handler) = others handlers := by
  unfold others
  induction handlers with
  | nil => rfl
  | cons first rest ih =>
      rw [List.erase_cons]
      split_ifs with heq
      · obtain rfl := eq_of_beq heq
        rw [List.filter_cons_of_neg (by simpa using Option.isSome_iff_ne_none.mp hhandler)]
      · rw [List.filter_cons, List.filter_cons, ih]

theorem others_foldl_off {subscriptions : List (String × Handler)}
    (h : ∀ subscription ∈ subscriptions, (projectionOf subscription.2).isSome)
    (registry : Registry) (eventName : String) :
    others (subscriptions.foldl (fun registry subscription =>
      registry.off subscription.1 subscription.2) registry eventName) =
      others (registry eventName) := by
  induction subscriptions generalizing registry with
  | nil => rfl
  | cons subscription rest ih =>
      rw [List.foldl_cons, ih fun other hother => h other (List.mem_cons_of_mem _ hother)]
      by_cases heq : eventName = subscription.1
      · subst heq
        rw [Registry.off, Function.update_self]
        exact others_erase (h subscription List.mem_cons_self) _
      · rw [Registry.off, Function.update_of_ne heq]

theorem others_foldl_on {subscriptions : List (String × Handler)}
    (h : ∀ subscription ∈ subscriptions, (projectionOf subscription.2).isSome)
    (registry : Registry) (eventName : String) :
    others (subscriptions.foldl (fun registry subscription =>
      registry.on subscription.1 subscription.2) registry eventName) =
      others (registry eventName) := by
  rw [ReadModel.foldl_on, others, List.filter_append]
  have hnone : ((subscriptions.filter fun subscription => subscription.1 = eventName).map
      Prod.snd).filter (fun handler => (projectionOf handler).isNone) = [] := by
    rw [List.filter_eq_nil_iff]
    intro handler hhandler
    obtain ⟨subscription, hmem, rfl⟩ := List.mem_map.mp hhandler
    have hsome := h subscription (List.mem_of_mem_filter hmem)
    simpa using Option.isSome_iff_ne_none.mp hsome
  rw [hnone, List.append_nil]
  rfl

theorem projectionOf_subscriptionsOf {readModel : ReadModel.Domain J Infra} {name : String} :
    ∀ subscription ∈ readModel.subscriptionsOf name,
      (projectionOf subscription.2).isSome := by
  intro subscription hmem
  unfold ReadModel.Domain.subscriptionsOf at hmem
  cases hget : readModel.resolvedProjections.get name with
  | none =>
      rw [hget] at hmem
      cases hmem
  | some projection =>
      simp only [hget, List.mem_map] at hmem
      obtain ⟨eventName, -, rfl⟩ := hmem
      rfl

/-- A rebuild leaves the other handlers, and their order, alone. -/
theorem others_rebuilt (readModel : ReadModel.Domain J Infra) (name : String)
    (registry : Registry) (eventName : String) :
    others (rebuilt (readModel.subscriptionsOf name) registry eventName) =
      others (registry eventName) := by
  rw [rebuilt, others_foldl_on projectionOf_subscriptionsOf,
    others_foldl_off projectionOf_subscriptionsOf]

section Rebuild

variable {ι : Type} [DecidableEq ι] [JsValue J]

/-- A call of `rebuildProjection` with which nothing interferes, if it succeeds, leaves
the registry that the model has. -/
theorem rebuildProjection_rebuilt (writeSide : ReadModel.WriteSide J)
    (readModel : ReadModel.Domain J Infra) (i : ι) (name : String)
    (options : ReadModel.RebuildOptions) (s : ReadModel.State ι J) :
    (ReadModel.rebuildProjection writeSide readModel i name options).Alone
      (fun r t => ∀ result, r = .ok result →
        t.handlers = rebuilt (readModel.subscriptionsOf name) s.handlers) s := by
  unfold ReadModel.rebuildProjection
  cases hctx : ReadModel.rebuildContext writeSide readModel name options with
  | error error => exact nofun
  | ok ctx =>
      obtain ⟨hget, -, hstore, hname, -, hsubscriptions⟩ := ReadModel.rebuildContext_eq_ok hctx
      change (ReadModel.rebuildProjectionImpl ctx i).Alone _ s
      apply Async.Alone.bind
      rw [Async.Alone.alone_call]
      intro _
      apply Async.Alone.tryFinally
      have hends : (ReadModel.rebuildBody ctx i).Alone (fun _ _ => True)
          (ReadModel.detach ctx i s).2 := by
        apply Async.Alone.bind
        rw [Async.Alone.alone_call]
        intro c
        refine ReadModel.wp_attempting (fun _ => trivial) ?_
        have hextracts := ReadModel.extracts_of_resolved hget hstore
        exact (ReadModel.replay_applies hextracts ctx.events).mono fun _ _ _ => trivial
      have hquiet := hends.every (ReadModel.rebuildBody_every ctx i) (fun _ => ⟨rfl, rfl⟩)
        fun _ _ _ h h' => ⟨h'.1.trans h.1, h'.2.trans h.2⟩
      refine hquiet.mono fun r t ht => ?_
      rw [Async.Alone.alone_call]
      intro _
      refine ⟨rfl, fun _ _ => ?_⟩
      rw [← hsubscriptions]
      exact congrArg (fun registry : Registry => ctx.subscriptions.foldl
        (fun registry subscription => registry.on subscription.1 subscription.2) registry) ht.1

end Rebuild

/-! ## A run without rebuilds -/

def Action.isRebuild : Action J Infra → Bool
  | .rebuild _ => true
  | _ => false

abbrev PlainRun (domain : Domain J Infra) (s t : State J Infra) : Prop :=
  Machine.Run (step domain) (fun _ action => action.isRebuild = false) s t

theorem exists_ready (domain : Domain J Infra) (c : Choice J Infra) (s : State J Infra) :
    ∃ t, PlainRun domain s t ∧ Ready t ∧ t.handlers = s.handlers ∧ t.erase = s.erase := by
  by_cases hready : Ready s
  · exact ⟨s, .refl, hready, rfl, rfl⟩
  · simp only [Ready, not_forall] at hready
    obtain ⟨event, handler, handlers, rest, hstack, hhandler⟩ := hready
    clear hhandler
    generalize hall : handler :: handlers = waiting at hstack
    clear hall
    induction waiting generalizing s with
    | nil =>
        refine ⟨s, .refl, ?_, rfl, rfl⟩
        intro event' handler' handlers' rest' hstack'
        rw [hstack] at hstack'
        cases hstack'
    | cons first waiting ih =>
        by_cases hfirst : (projectionOf first).isSome
        · obtain ⟨t, hnext, ht, hhandlers, herase⟩ := next_of_projection domain c hstack hfirst
          obtain ⟨u, hrun, hu, hhandlers', herase'⟩ := ih t ht
          have hstep : PlainRun domain s t := .tail (a := .next c) .refl rfl hnext
          exact ⟨u, hstep.trans hrun, hu, hhandlers'.trans hhandlers, herase'.trans herase⟩
        · refine ⟨s, .refl, ?_, rfl, rfl⟩
          intro event' handler' handlers' rest' hstack'
          rw [hstack] at hstack'
          cases hstack'
          simpa using hfirst

theorem stack_eq_nil_of_erase (h : t.erase = s.erase) (hidle : s.stack = []) :
    t.stack = [] := by
  have hstack : t.stack.map Frame.erase = s.stack.map Frame.erase := congrArg State.stack h
  rw [hidle] at hstack
  exact List.map_eq_nil_iff.mp hstack

theorem eq_of_erase (h : t.erase = s.erase) :
    t.eventStore = s.eventStore ∧ t.sagaStore = s.sagaStore ∧ t.dispatched = s.dispatched := by
  have hevents : t.erase.eventStore = s.erase.eventStore := by rw [h]
  have hsagas : t.erase.sagaStore = s.erase.sagaStore := by rw [h]
  have hdispatched : t.erase.dispatched = s.erase.dispatched := by rw [h]
  exact ⟨hevents, hsagas, hdispatched⟩

/-- A step is matched without rebuilds. -/
theorem exists_plain_step {s' : State J Infra} {action : Action J Infra}
    (herase : s'.erase = s.erase) (hstep : step domain s action = some t) :
    ∃ t', PlainRun domain s' t' ∧ t'.handlers = s'.handlers ∧ t'.erase = t.erase := by
  cases action with
  | command command =>
      simp only [step] at hstep
      split_ifs at hstep with hidle
      have hidle' := stack_eq_nil_of_erase herase (List.isEmpty_iff.mp hidle)
      obtain rfl := Option.some.inj hstep
      refine ⟨
        { s' with
          stack := [.running none none
            (.dispatchCommand command fun outcome _ => .settle outcome)] },
        .tail (a := .command command) .refl rfl ?_, rfl, ?_⟩
      · simp only [step, hidle', List.isEmpty_nil, if_true]
      · exact congrArg (fun erased : State J Infra =>
          { erased with
            stack := [.running none none
              (.dispatchCommand command fun outcome _ => .settle outcome)] }) herase
  | rebuild name =>
      simp only [step] at hstep
      split_ifs at hstep with hidle
      obtain rfl := Option.some.inj hstep
      refine ⟨s', .refl, rfl, herase.trans ?_⟩
      dsimp only [State.erase]
      congr 1
      funext eventName
      exact (others_rebuilt domain.readModel name s.handlers eventName).symm
  | next c =>
      by_cases hready : Ready s
      · obtain ⟨u, hrun, hu, hhandlers, herase'⟩ := exists_ready domain c s'
        have hnext : (next domain c u).map State.erase = some t.erase := by
          rw [← next_erase hu, herase', herase, next_erase hready]
          exact congrArg (Option.map State.erase) hstep
        obtain ⟨t', ht', herase''⟩ := Option.map_eq_some_iff.mp hnext
        refine ⟨t', .tail (a := .next c) hrun rfl ht', ?_, herase''⟩
        rw [next_handlers ht', hhandlers]
      · simp only [Ready, not_forall] at hready
        obtain ⟨event, handler, handlers, rest, hstack, hhandler⟩ := hready
        obtain ⟨u, hnext, -, -, hu⟩ := next_of_projection domain c hstack
          (Option.isSome_iff_ne_none.mpr hhandler)
        obtain rfl := Option.some.inj (hstep.symm.trans hnext)
        exact ⟨s', .refl, rfl, herase.trans hu.symm⟩

/-- Every run is matched by one without rebuilds, in which all but the projections goes
the same way. -/
theorem exists_plain_run (hrun : Machine.Reaches (step domain) (State.start domain) s) :
    ∃ s', PlainRun domain (State.start domain) s' ∧ s'.handlers = domain.readModel.init ∧
      s'.erase = s.erase := by
  refine hrun.simulate
    (R := fun (s s' : State J Infra) => s'.handlers = domain.readModel.init ∧ s'.erase = s.erase) ⟨rfl, rfl⟩ ?_
  rintro t action u t' ⟨hhandlers, herase⟩ - hstep
  obtain ⟨u', hrun', hhandlers', herase'⟩ := exists_plain_step herase hstep
  exact ⟨u', hrun', hhandlers'.trans hhandlers, herase'⟩

/-! ## Projections first -/

/-- No handler stands before one of a projection but those of projections. -/
def ProjectionsFirst (handlers : List Handler) : Prop :=
  handlers.Pairwise fun handler handler' =>
    projectionOf handler = none → projectionOf handler' = none

/-- The handlers that a frame still has to call. -/
def Frame.toCall : Frame J Infra → List Handler
  | .dispatch _ handlers => handlers
  | _ => []

/-- As long as projections stand first, only the innermost dispatch has some to call. -/
structure Sheltered (s : State J Infra) : Prop where
  first : ∀ frame ∈ s.stack, ProjectionsFirst frame.toCall
  below : ∀ frame ∈ s.stack.tail, ∀ handler ∈ frame.toCall, projectionOf handler = none

theorem toCall_of_reactsTo {frame : Frame J Infra} {trigger : Option (Emitted J)}
    (h : frame.ReactsTo trigger) : frame.toCall = [] := by
  cases frame with
  | running => rfl
  | publish => cases h
  | dispatch => cases h

/-- Frames that call no handler are put on top of some of the frames. -/
theorem Sheltered.push {kept rest : List (Frame J Infra)} (h : Sheltered s)
    (hkept : ∀ frame ∈ kept, frame.toCall = []) {frame : Frame J Infra}
    (hstack : s.stack = frame :: rest) (ht : t.stack = kept ++ rest) : Sheltered t := by
  have hrest : ∀ frame' ∈ rest, frame' ∈ s.stack.tail := by
    rw [hstack]
    exact fun _ h => h
  constructor
  · intro frame' hframe'
    rw [ht] at hframe'
    rcases List.mem_append.mp hframe' with hnew | hold
    · rw [hkept frame' hnew]
      exact List.Pairwise.nil
    · exact h.first frame' (List.mem_of_mem_tail (hrest frame' hold))
  · intro frame' hframe' handler hhandler
    rw [ht] at hframe'
    rcases List.mem_append.mp (List.mem_of_mem_tail hframe') with hnew | hold
    · rw [hkept frame' hnew] at hhandler
      cases hhandler
    · exact h.below frame' (hrest frame' hold) handler hhandler

theorem sheltered_of_move (hfirst : ∀ eventName, ProjectionsFirst (s.handlers eventName))
    (h : Sheltered s) (hmove : Move domain s t) : Sheltered t := by
  cases hmove with
  | command hidle =>
      constructor
      · intro frame hframe
        rw [List.mem_singleton.mp hframe]
        exact List.Pairwise.nil
      · intro frame hframe
        cases hframe
  | rebuild => exact ⟨h.first, h.below⟩
  | @dispatch event events rest hstack =>
      have hbelow := h.below
      rw [hstack] at hbelow
      constructor
      · intro frame hframe
        rcases List.mem_cons.mp hframe with rfl | hframe'
        · exact hfirst event.event.name
        · rcases List.mem_cons.mp hframe' with rfl | hrest
          · exact List.Pairwise.nil
          · exact h.first frame (hstack ▸ List.mem_cons_of_mem _ hrest)
      · intro frame hframe handler hhandler
        rcases List.mem_cons.mp hframe with rfl | hrest
        · cases hhandler
        · exact hbelow frame hrest handler hhandler
  | @deliver event handler handlers rest called sagaStore hstack hcalled hprojection =>
      have hthis := h.first _ (hstack ▸ List.mem_cons_self)
      have hbelow := h.below
      rw [hstack] at hbelow
      obtain ⟨hhead, htail⟩ := List.pairwise_cons.mp hthis
      constructor
      · intro frame hframe
        rcases List.mem_append.mp hframe with hnew | hold
        · rw [toCall_of_reactsTo (hcalled frame hnew)]
          exact List.Pairwise.nil
        · rcases List.mem_cons.mp hold with rfl | hrest
          · exact htail
          · exact h.first frame (hstack ▸ List.mem_cons_of_mem _ hrest)
      · intro frame hframe handler' hhandler'
        cases hof : projectionOf handler with
        | some name =>
            rw [hprojection (by rw [hof]; rfl)] at hframe
            exact hbelow frame hframe handler' hhandler'
        | none =>
            rcases List.mem_append.mp (List.mem_of_mem_tail hframe) with hnew | hold
            · rw [toCall_of_reactsTo (hcalled frame hnew)] at hhandler'
              cases hhandler'
            · rcases List.mem_cons.mp hold with rfl | hrest
              · exact hhead handler' hhandler' hof
              · exact hbelow frame hrest handler' hhandler'
  | @finish frame rest hstack hdone =>
      exact h.push (List.forall_mem_nil _) hstack rfl
  | work kept contributions hstack hframe hkept =>
      exact h.push (fun frame hframe => toCall_of_reactsTo (hkept frame hframe)) hstack rfl
  | @publish frame trigger rest kept sagaStore eventStore contributions events hstack hframe
      hkept hcommit =>
      apply h.push _ hstack (List.cons_append ..).symm
      intro frame' hframe'
      rcases List.mem_cons.mp hframe' with rfl | hold
      · rfl
      · exact toCall_of_reactsTo (hkept frame' hold)

theorem Sheltered.timely (h : Sheltered s) : Timely s := by
  intro due hdue frame hframe call hcall name hname
  unfold State.due at hdue
  split at hdue
  · rename_i event events rest hstack
    obtain rfl := Option.some.inj hdue
    have hbelow := h.below
    rw [hstack] at hbelow
    cases frame with
    | dispatch event' handlers =>
        obtain ⟨handler, hhandler, rfl⟩ := List.mem_map.mp hcall
        rw [hbelow _ hframe handler hhandler] at hname
        cases hname
    | publish => cases hcall
    | running => cases hcall
  · cases hdue

theorem projectionsFirst_append {handlers handlers' : List Handler}
    (h : ∀ handler ∈ handlers, projectionOf handler ≠ none)
    (h' : ∀ handler ∈ handlers', projectionOf handler = none) :
    ProjectionsFirst (handlers ++ handlers') := by
  apply List.pairwise_append.mpr
  refine ⟨?_, ?_, ?_⟩
  · apply List.pairwise_of_forall_mem_list
    intro handler hhandler _ _ hnone
    exact absurd hnone (h handler hhandler)
  · apply List.pairwise_of_forall_mem_list
    intro _ _ handler hhandler _
    exact h' handler hhandler
  · intro _ _ handler hhandler _
    exact h' handler hhandler

theorem projectionsFirst_init (readModel : ReadModel.Domain J Infra) (eventName : String) :
    ProjectionsFirst (readModel.init eventName) := by
  rw [ReadModel.init_eq, ReadModel.Domain.subscriptions, List.append_assoc, List.filter_append,
    List.map_append]
  apply projectionsFirst_append
  · intro handler hhandler
    obtain ⟨subscription, hmem, rfl⟩ := List.mem_map.mp hhandler
    have hprojection := List.mem_of_mem_filter hmem
    simp only [ReadModel.Domain.projectionSubscriptions, List.mem_flatMap, List.mem_map]
      at hprojection
    obtain ⟨entry, -, eventName', -, rfl⟩ := hprojection
    exact Option.some_ne_none entry.1
  · intro handler hhandler
    obtain ⟨subscription, hmem, rfl⟩ := List.mem_map.mp hhandler
    rcases List.mem_append.mp (List.mem_of_mem_filter hmem) with hsaga | hstandalone
    · simp only [ReadModel.Domain.sagaSubscriptions, List.mem_flatMap, List.mem_map] at hsaga
      obtain ⟨saga, -, eventName', -, rfl⟩ := hsaga
      rfl
    · simp only [ReadModel.Domain.standaloneSubscriptions, List.mem_map] at hstandalone
      obtain ⟨eventName', -, rfl⟩ := hstandalone
      rfl

/-- A run whose events are dispatched to projections first is timely. -/
theorem timely_of_projectionsFirst
    (hrun : Machine.Run (step domain)
      (fun s _ => ∀ eventName, ProjectionsFirst (s.handlers eventName))
      (State.start domain) s) : TimelyRun domain s ∧ Sheltered s := by
  induction hrun with
  | refl => exact ⟨.refl, ⟨List.forall_mem_nil _, List.forall_mem_nil _⟩⟩
  | tail _ hfirst hstep ih =>
      obtain ⟨htimely, hsheltered⟩ := ih
      exact ⟨htimely.tail hsheltered.timely hstep,
        sheltered_of_move hfirst hsheltered (step_move hstep)⟩

theorem timely_of_plainRun (hrun : PlainRun domain (State.start domain) s) :
    TimelyRun domain s := by
  suffices h : Machine.Run (step domain)
      (fun s _ => ∀ eventName, ProjectionsFirst (s.handlers eventName)) (State.start domain) s ∧
      s.handlers = domain.readModel.init from (timely_of_projectionsFirst h.1).1
  induction hrun with
  | refl => exact ⟨.refl, rfl⟩
  | @tail t u action _ hplain hstep ih =>
      obtain ⟨hfirst, hhandlers⟩ := ih
      refine ⟨hfirst.tail (fun eventName => ?_) hstep, ?_⟩
      · rw [hhandlers]
        exact projectionsFirst_init domain.readModel eventName
      · cases action with
        | command command =>
            simp only [step] at hstep
            split_ifs at hstep with hidle
            rw [← Option.some.inj hstep]
            exact hhandlers
        | rebuild name => cases hplain
        | next c => exact (next_handlers hstep).trans hhandlers

/-- An idle projection has received all events that it handles, in the order of the
bus. -/
theorem receivedBy_of_idle (hrun : TimelyRun domain s) (hidle : s.stack = []) (name : String) :
    s.receivedBy name = s.dispatched.filter fun event => domain.handles name event.event := by
  have haligned := (aligned_of_run hrun).aligned name
  rw [hidle] at haligned
  exact haligned.symm

/-- In a run of root commands, with rebuilds between them, in which events are
dispatched in timely states, a projection that has been called for an effect has
before, and not after, been called for each of its causes that it handles; and
whenever nothing runs, each projection has received the same events in the same order
as in some run of the same domain without rebuilds. -/
theorem causes_before_effects (hrun : TimelyRun domain s) :
    (∀ name later effect earlier, s.receivedBy name = later ++ effect :: earlier →
      ∀ cause, Produced cause effect → domain.handles name cause.event = true →
        cause ∈ earlier ∧ cause ∉ later) ∧
    (s.stack = [] → ∃ s', PlainRun domain (State.start domain) s' ∧ s'.stack = [] ∧
      s'.eventStore = s.eventStore ∧ s'.sagaStore = s.sagaStore ∧
      s'.dispatched = s.dispatched ∧ ∀ name, s'.receivedBy name = s.receivedBy name) := by
  constructor
  · intro name later effect earlier hreceived cause hproduced hhandles
    exact cause_received (chronicle_of_run hrun.reaches) (aligned_of_run hrun) hreceived
      hproduced hhandles
  · intro hidle
    obtain ⟨s', hplain, -, herase⟩ := exists_plain_run hrun.reaches
    have hidle' := stack_eq_nil_of_erase herase hidle
    obtain ⟨hevents, hsagas, hdispatched⟩ := eq_of_erase herase
    refine ⟨s', hplain, hidle', hevents, hsagas, hdispatched, fun name => ?_⟩
    rw [receivedBy_of_idle (timely_of_plainRun hplain) hidle', hdispatched,
      receivedBy_of_idle hrun hidle]

/-! ## A saga that stands before a projection -/

instance (s : State J Infra) : Decidable (Timely s) :=
  inferInstanceAs (Decidable (∀ due ∈ s.due, ∀ frame ∈ due.2, ∀ call ∈ frame.waiting,
    ∀ name ∈ projectionOf call.1, ∀ handler ∈ s.handlers due.1.event.name,
      projectionOf handler ≠ some name))

/-- The numbers of the events with which a projection was called, newest first, each
with the number and the name of its trigger. -/
def State.history (s : State J Infra) (name : String) : List (Nat × Option (Nat × String)) :=
  (s.receivedBy name).map fun event =>
    (event.number, event.trigger.map fun cause => (cause.number, cause.event.name))

/-- The projection is rebuilt after the saga has reacted; later events still come in
order. -/
theorem causes_before_effects_later :
    ∃ s, TimelyRun Sample.domain s ∧
      s.history "Tally" = [(2, none), (1, some (0, "Added")), (0, none)] ∧ s.stack = [] ∧
      ∃ s', PlainRun Sample.domain (State.start Sample.domain) s' ∧
        s'.history "Tally" = [(2, none), (1, some (0, "Added")), (0, none)] := by
  have hplay : (Machine.playMeeting (step Sample.domain) (fun s _ => Timely s)
      (Sample.run "Add" 16 ++ .rebuild "Tally" :: Sample.run "Add" 9)
      (State.start Sample.domain)).any (fun s =>
        decide (s.history "Tally" = [(2, none), (1, some (0, "Added")), (0, none)]) &&
          s.stack.isEmpty) := by
    decide +kernel
  obtain ⟨s, hs, hfacts⟩ := (Option.any_eq_true _ _).mp hplay
  rw [Bool.and_eq_true, decide_eq_true_eq, List.isEmpty_iff] at hfacts
  obtain ⟨hhistory, hidle⟩ := hfacts
  have hrun : TimelyRun Sample.domain s := Machine.run_of_playMeeting hs
  obtain ⟨s', hplain, -, -, -, -, hreceived⟩ := (causes_before_effects hrun).2 hidle
  refine ⟨s, hrun, hhistory, hidle, s', hplain, ?_⟩
  rw [State.history, hreceived, ← State.history]
  exact hhistory

/-- The projection is rebuilt before the saga reacts, and is then called for the
reaction before it is called for the event itself. -/
theorem causes_before_effects_rebuilt :
    ∃ s last effect cause, Machine.Reaches (step Sample.domain) (State.start Sample.domain) s ∧
      s.receivedBy "Tally" = [last, effect] ∧ Produced cause effect ∧
      last.number = cause.number ∧ Sample.domain.handles "Tally" cause.event = true := by
  have hplay : (Machine.play (step Sample.domain) (.rebuild "Tally" :: Sample.run "Add" 16)
      (State.start Sample.domain)).any (fun s =>
        decide (s.history "Tally" = [(0, none), (1, some (0, "Added"))])) := by
    decide +kernel
  obtain ⟨s, hs, hfacts⟩ := (Option.any_eq_true _ _).mp hplay
  have hhistory := of_decide_eq_true hfacts
  obtain ⟨last, rest, hreceived, hlast, hrest⟩ := List.map_eq_cons_iff.mp hhistory
  obtain ⟨effect, rest', rfl, heffect, hnil⟩ := List.map_eq_cons_iff.mp hrest
  obtain rfl := List.map_eq_nil_iff.mp hnil
  rw [Prod.mk.injEq] at hlast heffect
  obtain ⟨cause, htrigger, hcause⟩ := Option.map_eq_some_iff.mp heffect.2
  rw [Prod.mk.injEq] at hcause
  have hrun := Machine.run_of_play (C := fun _ _ => True) (fun _ _ _ => trivial) hs
  refine ⟨s, last, effect, cause, hrun, hreceived, .single htrigger,
    hlast.1.trans hcause.1.symm, ?_⟩
  rw [Domain.handles, hcause.2]
  decide +kernel

end Noddde.Delivery
