import Noddde.Proofs.EventualViews
import Noddde.Engine.ProjectionRebuild
/-!
# The subscriptions under concurrent rebuilds

A rebuild detaches the handlers of its projection in its first segment and
attaches them again in its last one, whatever happens in between.
-/

namespace Noddde.ReadModel

variable {ι J Infra : Type}

/-! ## Counting handlers -/

theorem count_foldl_off (subscriptions : List (String × Handler)) (registry : Registry)
    (eventName : String) (handler : Handler) :
    ((subscriptions.foldl (fun registry subscription =>
        registry.off subscription.1 subscription.2) registry) eventName).count handler =
      (registry eventName).count handler - subscriptions.count (eventName, handler) := by
  induction subscriptions generalizing registry with
  | nil => rfl
  | cons subscription rest ih =>
      obtain ⟨eventName', handler'⟩ := subscription
      rw [List.foldl_cons, ih, List.count_cons]
      by_cases h : eventName = eventName'
      · subst h
        simp only [Registry.off, Function.update_self, List.count_erase, beq_iff_eq,
          Prod.mk.injEq, true_and]
        split_ifs <;> omega
      · have hne : ¬ eventName' = eventName := fun heq => h heq.symm
        simp [Registry.off, Function.update_of_ne h, hne]

theorem count_foldl_on (subscriptions : List (String × Handler)) (registry : Registry)
    (eventName : String) (handler : Handler) :
    ((subscriptions.foldl (fun registry subscription =>
        registry.on subscription.1 subscription.2) registry) eventName).count handler =
      (registry eventName).count handler + subscriptions.count (eventName, handler) := by
  rw [foldl_on, List.count_append, count_map_snd_filter]

variable {domain : Domain J Infra} {name eventName eventName' : String} {handler : Handler}

theorem nodup_subscriptionsOf (domain : Domain J Infra) (name : String) :
    (domain.subscriptionsOf name).Nodup := by
  unfold Domain.subscriptionsOf
  cases domain.resolvedProjections.get name with
  | none => exact List.nodup_nil
  | some projection =>
      apply (nodup_subscribedTo name projection).map
      intro a b h
      exact congrArg Prod.fst h

theorem mem_subscriptionsOf :
    (eventName, .projection name eventName') ∈ domain.subscriptionsOf name ↔
      (eventName, .projection name eventName') ∈ domain.subscriptions := by
  rw [projection_mem_subscriptions]
  unfold Domain.subscriptionsOf
  cases domain.resolvedProjections.get name with
  | none => simp
  | some projection =>
      simp only [List.mem_map, Prod.mk.injEq, Handler.projection.injEq, true_and,
        Option.some.injEq, exists_eq_left']
      constructor
      · rintro ⟨_, hmem, rfl, rfl⟩
        exact ⟨rfl, hmem⟩
      · rintro ⟨rfl, hmem⟩
        exact ⟨_, hmem, rfl, rfl⟩

/-- `init` has subscribed exactly these handlers of the projection. -/
theorem count_init_projection :
    (domain.init eventName).count (.projection name eventName') =
      (domain.subscriptionsOf name).count (eventName, .projection name eventName') := by
  by_cases hmem : (eventName, Handler.projection name eventName') ∈ domain.subscriptions
  · obtain ⟨rfl, -⟩ := projection_mem_subscriptions.mp hmem
    rw [count_init hmem, List.count_eq_one_of_mem (nodup_subscriptionsOf domain name)
      (mem_subscriptionsOf.mpr hmem)]
  · rw [List.count_eq_zero.mpr fun h => hmem (mem_init_iff.mp h),
      List.count_eq_zero.mpr fun h => hmem (mem_subscriptionsOf.mp h)]

theorem count_subscriptionsOf_of_ne (hne : ∀ eventName', handler ≠ .projection name eventName') :
    (domain.subscriptionsOf name).count (eventName, handler) = 0 := by
  rw [List.count_eq_zero]
  unfold Domain.subscriptionsOf
  cases domain.resolvedProjections.get name with
  | none => exact List.not_mem_nil
  | some projection =>
      simp only [List.mem_map, not_exists, not_and, Prod.mk.injEq]
      rintro eventName' - - rfl
      exact hne eventName' rfl

/-! ## What the replay leaves alone -/

variable [DecidableEq ι] [JsValue J]

/-- The handlers and the running rebuilds are as they were. -/
def Quiet (s t : State ι J) : Prop :=
  t.handlers = s.handlers ∧ t.rebuilding = s.rebuilding

section Replay

variable {ctx : RebuildContext J Infra} {i : ι}

omit [DecidableEq ι] [JsValue J] in
theorem attempting_every {α : Type} {m : Step ι J α} (h : ∀ s, m.wp (fun _ t => Quiet s t) s) :
    (Async.call fun c => attempting ctx c m : Program ι J Infra α).Every Quiet := by
  refine Async.Every.call fun c s => ?_
  unfold attempting
  split
  · exact ⟨rfl, rfl⟩
  · exact h s

omit [JsValue J] in
theorem reduceEvent_every {handler : EventHandler J Infra} {event : Event J} {view : J} :
    (Async.call (reduceEvent i handler event view) : Program ι J Infra _).Every Quiet := by
  refine Async.Every.call fun c s => ?_
  unfold Segment.wp reduceEvent
  split
  · exact ⟨rfl, rfl⟩
  · exact ⟨rfl, rfl⟩

omit [DecidableEq ι] [JsValue J] in
theorem reportProgress_every (eventsApplied : Nat) :
    (reportProgress ctx eventsApplied : Program ι J Infra Unit).Every Quiet := by
  unfold reportProgress
  split_ifs
  · exact attempting_every fun s => ⟨rfl, rfl⟩
  · trivial

theorem applyEvent_every {handler : EventHandler J Infra} {event : Event J}
    {result : RebuildResult} : (applyEvent ctx i handler event result).Every Quiet := by
  apply Async.Every.bind (Async.Every.ofExcept _)
  intro viewId
  apply Async.Every.bind (attempting_every fun s => ⟨rfl, rfl⟩)
  intro current
  apply Async.Every.bind reduceEvent_every
  intro next
  apply Async.Every.bind (attempting_every fun s => ⟨rfl, rfl⟩)
  intro _
  exact Async.Every.bind (reportProgress_every _) fun _ => trivial

theorem replay_every (events : List (Event J)) (result : RebuildResult) :
    (replay ctx i events result).Every Quiet := by
  induction events generalizing result with
  | nil => exact Async.Every.bind (attempting_every fun s => ⟨rfl, rfl⟩) fun _ => trivial
  | cons event rest ih =>
      apply Async.Every.bind (attempting_every fun s => ⟨rfl, rfl⟩)
      intro _
      refine Async.Every.bind ?_ fun result => ih result
      apply Async.Every.bind (Async.Every.ofExcept _)
      intro event
      cases ctx.projection.on.get event.name with
      | none => trivial
      | some handler => exact applyEvent_every

end Replay

/-! ## The phases of a rebuild -/

def rebuildBody (ctx : RebuildContext J Infra) (i : ι) : Program ι J Infra RebuildResult := do
  Async.call fun c => attempting ctx c (truncate ctx)
  replay ctx i ctx.events ⟨0, 0, 0⟩

theorem rebuildBody_every (ctx : RebuildContext J Infra) (i : ι) :
    (rebuildBody ctx i).Every Quiet :=
  Async.Every.bind (attempting_every fun _ => ⟨rfl, rfl⟩) fun _ => replay_every _ _

def resume (ctx : RebuildContext J Infra) (i : ι) (body : Program ι J Infra RebuildResult) :
    Program ι J Infra Unit :=
  (body.tryFinally (Async.call fun _ => reattach ctx i)).bind fun _ => .pure ()

variable {writeSide : WriteSide J} {options : RebuildOptions} {i : ι}

/-- A call of `rebuildProjection`, whose result nobody uses. -/
def rebuildThread (writeSide : WriteSide J) (domain : Domain J Infra) (i : ι) (name : String)
    (options : RebuildOptions) : Program ι J Infra Unit :=
  (rebuildProjection writeSide domain i name options).bind fun _ => .pure ()

/-- How far a thread has come, and whether its handlers are detached. -/
inductive Phase (domain : Domain J Infra) (name : String) (i : ι)
    (start : Program ι J Infra Unit) : Program ι J Infra Unit → Bool → Prop where
  | ready : Phase domain name i start start false
  | running {ctx : RebuildContext J Infra} {body : Program ι J Infra RebuildResult}
      (hctx : ctx.subscriptions = domain.subscriptionsOf name) (hbody : body.Every Quiet) :
      Phase domain name i start (resume ctx i body) true
  | done {p : Program ι J Infra Unit} (hsettled : p.settled = true) :
      Phase domain name i start p false

omit [DecidableEq ι] [JsValue J] in
theorem rebuildContext_eq_ok {ctx : RebuildContext J Infra}
    (h : rebuildContext writeSide domain name options = .ok ctx) :
    domain.resolvedProjections.get name = some ctx.projection ∧
      ctx.projection.consistency ≠ .strong ∧ domain.hasViewStore name = true ∧
      ctx.projectionName = name ∧ writeSide.resolveReader = some ctx.events ∧
      ctx.subscriptions = domain.subscriptionsOf name := by
  unfold rebuildContext at h
  unfold Domain.subscriptionsOf
  cases hget : domain.resolvedProjections.get name with
  | none => simp [hget] at h
  | some projection =>
      cases hreader : writeSide.resolveReader with
      | none =>
          simp only [hget, hreader] at h
          split_ifs at h
      | some events =>
          simp only [hget, hreader] at h
          split_ifs at h with hstrong hstore
          obtain rfl := Except.ok.inj h
          exact ⟨rfl, hstrong, Bool.eq_true_of_not_eq_false hstore, rfl, rfl, rfl⟩

inductive Move (domain : Domain J Infra) (name : String) (i : ι) (s : State ι J) :
    State ι J → Prop where
  | detach {t : State ι J} (hrebuilding : s.rebuilding i = false)
      (hhandlers : t.handlers = (domain.subscriptionsOf name).foldl
        (fun registry subscription => registry.off subscription.1 subscription.2) s.handlers)
      (hdetached : t.rebuilding = Function.update s.rebuilding i true) :
      Move domain name i s t
  | quiet {t : State ι J} (hrebuilding : s.rebuilding i = true) (hquiet : Quiet s t) :
      Move domain name i s t
  | reattach {t : State ι J} (hrebuilding : s.rebuilding i = true)
      (hhandlers : t.handlers = (domain.subscriptionsOf name).foldl
        (fun registry subscription => registry.on subscription.1 subscription.2) s.handlers)
      (hattached : t.rebuilding = Function.update s.rebuilding i false) :
      Move domain name i s t

omit [JsValue J] in
theorem fire_resume_ofExcept {ctx : RebuildContext J Infra} (r : Except Err RebuildResult)
    (c : Choice Infra) (s : State ι J) :
    (resume ctx i (Async.ofExcept r)).fire c s =
      some (Async.bind (Async.ofExcept r) fun _ => .pure (), (reattach ctx i s).2) := by
  cases r <;> rfl

theorem fire_cases {p rest : Program ι J Infra Unit} {s t : State ι J} {c : Choice Infra}
    (hphase : Phase domain name i (rebuildThread writeSide domain i name options) p
      (s.rebuilding i))
    (hfire : p.fire c s = some (rest, t)) :
    Move domain name i s t ∧
      Phase domain name i (rebuildThread writeSide domain i name options) rest
        (t.rebuilding i) := by
  generalize hrebuilding : s.rebuilding i = rebuilding at hphase
  cases hphase with
  | ready =>
      unfold rebuildThread rebuildProjection at hfire
      cases hctx : rebuildContext writeSide domain name options with
      | error error =>
          rw [hctx] at hfire
          cases hfire
      | ok ctx =>
          obtain ⟨-, -, -, -, -, hsubscriptions⟩ := rebuildContext_eq_ok hctx
          rw [hctx] at hfire
          obtain ⟨rfl, rfl⟩ := Prod.mk.inj (Option.some.inj hfire)
          have hdetached : (detach ctx i s).2.rebuilding i = true := Function.update_self _ _ _
          change Move domain name i s (detach ctx i s).2 ∧
            Phase domain name i _ (resume ctx i (rebuildBody ctx i))
              ((detach ctx i s).2.rebuilding i)
          rw [hdetached]
          refine ⟨.detach hrebuilding ?_ rfl,
            .running hsubscriptions (rebuildBody_every ctx i)⟩
          rw [← hsubscriptions]
          rfl
  | running hctx hbody =>
      rename_i ctx body
      have hattach : ∀ r, (resume ctx i (Async.ofExcept r)).fire c s = some (rest, t) →
          Move domain name i s t ∧
            Phase domain name i (rebuildThread writeSide domain i name options) rest
              (t.rebuilding i) := by
        intro r hfire
        rw [fire_resume_ofExcept] at hfire
        obtain ⟨rfl, rfl⟩ := Prod.mk.inj (Option.some.inj hfire)
        have hattached : (reattach ctx i s).2.rebuilding i = false := Function.update_self _ _ _
        rw [hattached]
        refine ⟨.reattach hrebuilding ?_ rfl, .done ?_⟩
        · rw [← hctx]
          rfl
        · cases r <;> rfl
      cases body with
      | pure result => exact hattach (.ok result) hfire
      | throw error => exact hattach (.error error) hfire
      | step act k =>
          change (act c s).map (fun r => (resume ctx i (k r.1), r.2)) = some (rest, t) at hfire
          obtain ⟨⟨b, u⟩, hact, hrest⟩ := Option.map_eq_some_iff.mp hfire
          obtain ⟨rfl, rfl⟩ := Prod.mk.inj hrest
          obtain ⟨hquiet, hk⟩ := hbody c s b u hact
          have hstill : u.rebuilding i = true := by rw [hquiet.2, hrebuilding]
          rw [hstill]
          exact ⟨.quiet hrebuilding hquiet, .running hctx hk⟩
  | done hsettled =>
      cases p with
      | pure _ => cases hfire
      | throw _ => cases hfire
      | step _ _ => cases hsettled

/-! ## All rebuilds -/

/-- Rebuilds of projections, over a registry in which no projection is detached. -/
def rebuilds (writeSide : ι → WriteSide J) (domain : Domain J Infra) (names : ι → String)
    (options : ι → RebuildOptions) (s : State ι J) :
    Pool ι (State ι J) (Choice Infra) Err :=
  ⟨fun i => rebuildThread (writeSide i) domain i (names i) (options i),
    { s with rebuilding := fun _ => false }⟩

/-- Thread `i` has begun and has not settled. -/
def Running (p q : Pool ι (State ι J) (Choice Infra) Err) (i : ι) : Prop :=
  q.threads i ≠ p.threads i ∧ (q.threads i).settled = false

variable {writeSides : ι → WriteSide J} {names : ι → String} {optionsOf : ι → RebuildOptions}
  {s : State ι J} {p q r : Pool ι (State ι J) (Choice Infra) Err}

/-- The handlers of the projections that are being rebuilt are detached, all others
are registered as often as `init` has registered them. -/
structure Registered (domain : Domain J Infra) (names : ι → String) (s : State ι J) :
    Prop where
  detached : ∀ i, s.rebuilding i = true → ∀ eventName eventName',
    (s.handlers eventName).count (.projection (names i) eventName') = 0
  kept : ∀ eventName handler,
    (∀ i, s.rebuilding i = true → ∀ eventName', handler ≠ .projection (names i) eventName') →
    (s.handlers eventName).count handler = (domain.init eventName).count handler

omit [JsValue J] in
theorem registered_of_move (hnames : Function.Injective names) {t : State ι J}
    (hs : Registered domain names s) (hmove : Move domain (names i) i s t) : Registered domain names t := by
  cases hmove with
  | quiet hrebuilding hquiet =>
      obtain ⟨hhandlers, hsame⟩ := hquiet
      constructor
      · rw [hhandlers, hsame]
        exact hs.detached
      · rw [hhandlers, hsame]
        exact hs.kept
  | detach hrebuilding hhandlers hdetached =>
      have hown : ∀ eventName eventName',
          (s.handlers eventName).count (.projection (names i) eventName') =
            (domain.init eventName).count (.projection (names i) eventName') := by
        intro eventName eventName'
        apply hs.kept
        intro j hj eventName'' heq
        obtain rfl := hnames (Handler.projection.inj heq).1
        rw [hrebuilding] at hj
        cases hj
      constructor
      · intro j hj eventName eventName'
        rw [hhandlers, count_foldl_off]
        by_cases hij : j = i
        · subst hij
          rw [hown, count_init_projection, Nat.sub_self]
        · rw [hdetached, Function.update_of_ne hij] at hj
          rw [hs.detached j hj, Nat.zero_sub]
      · intro eventName handler hne
        have hother : ∀ eventName', handler ≠ .projection (names i) eventName' :=
          hne i (by rw [hdetached, Function.update_self])
        rw [hhandlers, count_foldl_off, count_subscriptionsOf_of_ne hother, Nat.sub_zero]
        apply hs.kept
        intro j hj
        by_cases hij : j = i
        · exact hij ▸ hother
        · exact hne j (by rw [hdetached, Function.update_of_ne hij, hj])
  | reattach hrebuilding hhandlers hattached =>
      constructor
      · intro j hj eventName eventName'
        have hij : j ≠ i := by
          rintro rfl
          rw [hattached, Function.update_self] at hj
          cases hj
        rw [hattached, Function.update_of_ne hij] at hj
        rw [hhandlers, count_foldl_on, hs.detached j hj, Nat.zero_add]
        apply count_subscriptionsOf_of_ne
        intro eventName'' heq
        exact hij (hnames (Handler.projection.inj heq).1)
      · intro eventName handler hne
        rw [hhandlers, count_foldl_on]
        by_cases hown : ∃ eventName', handler = .projection (names i) eventName'
        · obtain ⟨eventName', rfl⟩ := hown
          rw [hs.detached i hrebuilding, Nat.zero_add, count_init_projection]
        · have hother : ∀ eventName', handler ≠ .projection (names i) eventName' :=
            fun eventName' heq => hown ⟨eventName', heq⟩
          rw [count_subscriptionsOf_of_ne hother, Nat.add_zero]
          apply hs.kept
          intro j hj
          by_cases hij : j = i
          · exact hij ▸ hother
          · exact hne j (by rw [hattached, Function.update_of_ne hij, hj])

omit [JsValue J] in
theorem rebuilding_of_move {t : State ι J} (hmove : Move domain name i s t) {j : ι}
    (hj : j ≠ i) : t.rebuilding j = s.rebuilding j := by
  cases hmove with
  | detach _ _ hdetached => rw [hdetached, Function.update_of_ne hj]
  | quiet _ hquiet => rw [hquiet.2]
  | reattach _ _ hattached => rw [hattached, Function.update_of_ne hj]

/-- Every thread is in a phase that its flag agrees with. -/
structure Underway (domain : Domain J Infra) (names : ι → String)
    (p q : Pool ι (State ι J) (Choice Infra) Err) : Prop where
  phase : ∀ i, Phase domain (names i) i (p.threads i) (q.threads i) (q.state.rebuilding i)
  registered : Registered domain names q.state

theorem underway_start (hstart : ∀ eventName, (s.handlers eventName).Perm (domain.init eventName)) :
    Underway domain names (rebuilds writeSides domain names optionsOf s)
      (rebuilds writeSides domain names optionsOf s) where
  phase _ := .ready
  registered :=
    { detached := fun _ h => absurd h Bool.false_ne_true
      kept := fun eventName handler _ => (hstart eventName).count_eq handler }

theorem underway_fire (hnames : Function.Injective names) {i : ι} {c : Choice Infra}
    (hq : Underway domain names (rebuilds writeSides domain names optionsOf s) q)
    (hfire : q.fire i c = some r) :
    Underway domain names (rebuilds writeSides domain names optionsOf s) r := by
  simp only [Pool.fire, Option.map_eq_some_iff] at hfire
  obtain ⟨⟨rest, t⟩, hnext, rfl⟩ := hfire
  obtain ⟨hmove, hphase⟩ := fire_cases (hq.phase i) hnext
  refine ⟨fun j => ?_, registered_of_move hnames hq.registered hmove⟩
  change Phase domain (names j) j _ (Function.update q.threads i rest j) (t.rebuilding j)
  by_cases hij : j = i
  · subst hij
    rw [Function.update_self]
    exact hphase
  · rw [Function.update_of_ne hij, rebuilding_of_move hmove hij]
    exact hq.phase j

theorem underway_of_run (hnames : Function.Injective names)
    (hstart : ∀ eventName, (s.handlers eventName).Perm (domain.init eventName))
    (hrun : Pool.Reaches (rebuilds writeSides domain names optionsOf s) q) :
    Underway domain names (rebuilds writeSides domain names optionsOf s) q := by
  induction hrun with
  | refl => exact underway_start hstart
  | tail _ hfire _ ih => exact underway_fire hnames ih hfire

omit [JsValue J] in
theorem Underway.unsettled (hq : Underway domain names p q) {i : ι}
    (h : q.state.rebuilding i = true) : (q.threads i).settled = false := by
  have hphase := hq.phase i
  rw [h] at hphase
  generalize q.threads i = thread at hphase
  cases hphase with
  | running hctx hbody =>
      rename_i ctx body
      cases body <;> rfl

omit [JsValue J] in
theorem Underway.rebuilding (hq : Underway domain names p q) {i : ι} (h : Running p q i) :
    q.state.rebuilding i = true := by
  obtain ⟨hbegun, hunsettled⟩ := h
  have hphase := hq.phase i
  generalize q.threads i = thread at hphase hbegun hunsettled
  generalize q.state.rebuilding i = rebuilding at hphase
  cases hphase with
  | ready => exact absurd rfl hbegun
  | running => rfl
  | done hsettled =>
      rw [hsettled] at hunsettled
      cases hunsettled

/-- Rebuilds of distinct projections in any interleaving, each of which may fail
anywhere.  As long as one runs, none of the handlers of its projection is registered;
every other handler stays registered as often as before; and once all have settled,
so are the handlers of their projections. -/
theorem subscriptions_survive (hnames : Function.Injective names)
    (hstart : ∀ eventName, (s.handlers eventName).Perm (domain.init eventName))
    (hrun : Pool.Reaches (rebuilds writeSides domain names optionsOf s) q) :
    (∀ i, Running (rebuilds writeSides domain names optionsOf s) q i →
      q.state.rebuilding i = true) ∧
    (∀ i, q.state.rebuilding i = true → (q.threads i).settled = false ∧
      ∀ eventName eventName',
        .projection (names i) eventName' ∉ q.state.handlers eventName) ∧
    (∀ eventName handler,
      (∀ i, q.state.rebuilding i = true →
        ∀ eventName', handler ≠ .projection (names i) eventName') →
      (q.state.handlers eventName).count handler = (s.handlers eventName).count handler) ∧
    ((∀ i, (q.threads i).settled = true) →
      ∀ eventName, (q.state.handlers eventName).Perm (s.handlers eventName)) := by
  have hq := underway_of_run hnames hstart hrun
  have hkept : ∀ eventName handler,
      (∀ i, q.state.rebuilding i = true →
        ∀ eventName', handler ≠ .projection (names i) eventName') →
      (q.state.handlers eventName).count handler = (s.handlers eventName).count handler := by
    intro eventName handler hne
    rw [hq.registered.kept eventName handler hne, (hstart eventName).count_eq handler]
  refine ⟨fun i => hq.rebuilding, fun i hi => ⟨hq.unsettled hi, fun eventName eventName' => ?_⟩,
    hkept, fun hsettled eventName => ?_⟩
  · exact List.count_eq_zero.mp (hq.registered.detached i hi eventName eventName')
  · rw [List.perm_iff_count]
    intro handler
    apply hkept
    intro i hi
    have hunsettled := hq.unsettled hi
    rw [hsettled i] at hunsettled
    cases hunsettled

/-! ## Two rebuilds -/

section Runs

open Noddde.Sample (Value tick)

def tallies : Domain Value Unit where
  projections := ((∅ : InsertionMap String (Projection Value Unit)).set "Tally"
    (Sample.tally .eventual)).set "Copy" (Sample.tally .eventual)
  hasViewStore _ := true
  sagas := [("Saga", ["Added"])]
  standaloneEventHandlers := ["Added"]

def tallyNames (copy : Bool) : String := if copy then "Copy" else "Tally"

def tallyLog : WriteSide Value where
  aggregates := []
  resolve _ := none
  persistence _ := .stateStored
  eventReader := some [Sample.additions false]

/-- Both rebuilds begin; the view store of the copy cannot be truncated. -/
def rebuildSchedule : List (Bool × Choice Unit) :=
  [(false, tick), (true, tick), (true, { tick with rejects := some (.error "unavailable") }),
    (true, tick)] ++ List.replicate 7 (false, tick)

def tallyRebuilds : Pool Bool (State Bool Value) (Choice Unit) Err :=
  rebuilds (fun _ => tallyLog) tallies tallyNames (fun _ => ⟨none, true⟩)
    { handlers := tallies.init }

/-- One rebuild succeeds and the other fails; the handlers are back in both cases. -/
theorem subscriptions_survive_failure :
    ∃ q, Pool.play rebuildSchedule tallyRebuilds = some q ∧
      (q.threads false).resolved = true ∧ (q.threads true).resolved = false ∧
      ∀ eventName, (q.state.handlers eventName).Perm (tallies.init eventName) := by
  have hplay : (Pool.play rebuildSchedule tallyRebuilds).any
      (fun q => ((q.threads false).resolved && !(q.threads true).resolved) &&
        ((q.threads false).settled && (q.threads true).settled)) := by
    decide +kernel
  obtain ⟨q, hq, hfacts⟩ := (Option.any_eq_true _ _).mp hplay
  simp only [Bool.and_eq_true, Bool.not_eq_true'] at hfacts
  obtain ⟨⟨hresolved, hrejected⟩, hfirst, hsecond⟩ := hfacts
  have hnames : Function.Injective tallyNames := by
    unfold Function.Injective
    decide
  obtain ⟨-, -, -, hperm⟩ := subscriptions_survive hnames
    (fun _ => List.Perm.refl _) (Pool.run_of_play (fun _ _ => trivial) hq)
  refine ⟨q, hq, hresolved, hrejected, hperm ?_⟩
  rintro (_ | _)
  · exact hfirst
  · exact hsecond

end Runs

end Noddde.ReadModel
