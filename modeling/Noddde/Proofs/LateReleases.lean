import Noddde.Proofs.LocksReturned
/-!
# Releases that come too late

The owner of a unit of work takes its completion hooks once.  A dispatch that is granted its
lock after that registers a release that nobody will make.
-/

namespace Noddde

variable {J Infra : Type} {wiring : Wiring J Infra} {x : Subject} {u : UowRef} {s t : World J}

/-- No completion hook rejects. -/
def HooksResolve (s t : World J) : Prop :=
  ∀ u hook e, .hookRan u hook (some e) ∈ t.history → .hookRan u hook (some e) ∈ s.history

/-- The locks that were acquired on behalf of `u` have been released. -/
def LocksReleased (u : UowRef) (h : List (Obs J)) : Prop :=
  ∀ d key, .acquired ⟨d, some u⟩ key ∈ h → .released ⟨d, some u⟩ key ∈ h

/-- The dispatches that joined `u` have settled. -/
def DispatchesSettled (u : UowRef) (h : List (Obs J)) : Prop :=
  ∀ task, .started task (some u) ∈ h → ∃ e, .settled task.dispatch e ∈ h

/-- No release was registered on `u` after its hooks had been taken. -/
def InTime (u : UowRef) (h : List (Obs J)) : Prop :=
  ∀ new old committed within hooks, h = new ++ .hooksTaken u committed within hooks :: old →
    ∀ d hook, .registered u d hook ∈ new → hook.isRelease = false

/-! ## A late hook waits for ever -/

variable (u) in
/-- What was registered after the hooks had been taken. -/
def Stranded (w : World J) : Prop :=
  ∀ new old committed within hooks,
    w.history = new ++ .hooksTaken u committed within hooks :: old →
      ∀ d hook, .registered u d hook ∈ new → Awaiting u hook w

theorem Stranded.step [JsValue J] (hs : Stranded u s) (h : Step wiring x s t) :
    Stranded u t := by
  intro new old committed within hooks heq d hook hregistered
  cases (h.hooks u).awaiting with
  | taken _ first history =>
      -- nothing follows the hooks that are taken now
      rw [history] at heq
      cases new with
      | nil => cases hregistered
      | cons o rest =>
          obtain ⟨-, hold⟩ := List.cons.inj heq
          exact absurd (by simp [hold]) (first committed within hooks)
  | more added history spares awaiting =>
      rw [history] at heq
      obtain ⟨before, rfl, hold⟩ := append_split heq (spares committed within hooks)
      refine (awaiting hook).mpr ?_
      rcases List.mem_append.mp hregistered with hmem | hmem
      · exact .inr ⟨d, hmem⟩
      · exact .inl (hs _ _ _ _ _ hold d hook hmem)

theorem Awaiting.held {hook : Hook J} (h : Awaiting u hook s) : hook ∈ heldHooks u s :=
  mem_heldHooks.mpr (h.imp id .inl)

/-- The lock of a release hook that is held has not been given back. -/
theorem Locked.unreleased (hs : Locked s) {hook : Hook J} (hheld : hook ∈ heldHooks u s)
    (hrelease : hook.isRelease = true) : ¬ LocksReleased u s.history := by
  obtain ⟨task, -, -, -, hacquired, hreleased⟩ :=
    hs.hooks u hook (List.mem_filter.mpr ⟨hheld, hrelease⟩)
  exact fun h => hreleased (h _ _ hacquired)

/-! ## Runs -/

section Runs

variable [JsValue J] {C : World J → World J → Prop} {workload : Workload J} {q : Process J Infra}

theorem stranded_of_run (hrun : Pool.Run C (boot wiring workload) q) (u : UowRef) :
    Stranded u q.state := by
  refine steps_induction wiring (I := Stranded u) hrun ?_ fun _ _ _ _ _ h hs => hs.step h
  intro new old committed within hooks h
  simp at h

theorem hooksResolve_of_run (hrun : Pool.Run HooksResolve (boot wiring workload) q) (u : UowRef)
    (hook : Hook J) (e : Err) : .hookRan u hook (some e) ∉ q.state.history := by
  refine steps_induction wiring (I := fun w => .hookRan u hook (some e) ∉ w.history) hrun ?_ ?_
  · simp
  · exact fun _ _ _ _ hresolve _ hs hmem => hs (hresolve _ _ _ hmem)

/-- Once the owner of an explicit unit of work and all the dispatches that joined it have
settled, every lock that was acquired on behalf of the unit of work has been released if and
only if none of the dispatches registered its release after the owner had taken the
completion hooks; in every run in which no hook rejects. -/
theorem locksReleased_iff (hrun : Pool.Run HooksResolve (boot wiring workload) q)
    (hu : u.implicit = false) (hcreated : (q.state.uows u).created = true)
    (hended : q.threads u.owner = .pure () ∨ ∃ e, q.threads u.owner = .throw e)
    (hsettled : DispatchesSettled u q.state.history) :
    LocksReleased u q.state.history ↔ InTime u q.state.history := by
  obtain ⟨hlocked, hturns, hs⟩ := returns_of_run hrun
  have hdrained : Drained u q.state.history := by
    obtain ⟨hresolved, hrejected⟩ := reported_of_run hrun hu hcreated
    rcases hended with hended | ⟨e, hended⟩
    · exact (hresolved hended).2
    · exact (hrejected e hended).2
  constructor
  · intro hreleased new old committed within hooks heq d hook hregistered
    by_contra hrelease
    have hstranded := stranded_of_run hrun u _ _ _ _ _ heq d hook hregistered
    exact hlocked.unreleased hstranded.held (Bool.of_not_eq_false hrelease) hreleased
  · intro htime d key hacquired
    have hcalled := (hlocked.locks key).called _ hacquired
    obtain ⟨task, hd, hstarted, rfl⟩ := hs.asked _ _ hcalled
    obtain rfl : task.dispatch = d := hd
    obtain ⟨e, hsettles⟩ := hsettled task hstarted
    obtain ⟨task', uow, hd, hstarted', hdone⟩ := hs.done _ _ hsettles
    obtain ⟨rfl, rfl⟩ := hlocked.tasks _ _ _ _ hstarted' hstarted hd
    rcases (hdone _ hcalled).2 with htimedOut | ⟨-, hregistered⟩
    · exact absurd hacquired ((hlocked.locks _).timedOut _ htimedOut).2
    · refine (hs.back task' u hregistered).resolve_left fun hheld => ?_
      -- what is left of the hooks was registered too late
      obtain ⟨new, old, committed, within, hooks, d, heq, hlate⟩ :=
        hs.late (hturns u) (hooksResolve_of_run hrun u) hdrained hheld
      have hrelease := htime _ _ _ _ _ heq d _ hlate
      cases hrelease

end Runs

/-! ## A scope and a dispatch that it may not wait for -/

namespace Sample

/-- A command on its own, and a scope whose function has started a dispatch to the same
counter without waiting for it. -/
def unawaited : Process Value Unit :=
  let ambient := (call (add "a" none)).ambient
  boot locking (work [call (add "a" (some 1)),
    ⟨ambient.withinScope 0, "Counter", add "a" (some 2)⟩] [⟨ambient, .settle⟩])

/-- The dispatch of the scope is queued behind the command. -/
def queuedTurns : List (Tid × Choice Unit) :=
  turns (.command 0) 3 ++ turns (.scope 0) 1 ++ turns (.command 1) 2

/-- The scope settles before the lock is handed over. -/
def lateTurns : List (Tid × Choice Unit) :=
  queuedTurns ++ turns (.scope 0) 8 ++ turns (.command 0) 10 ++ turns (.command 1) 6

/-- The scope settles after its dispatch. -/
def timelyTurns : List (Tid × Choice Unit) :=
  queuedTurns ++ turns (.command 0) 10 ++ turns (.command 1) 6 ++ turns (.scope 0) 12

/-- No completion hook has rejected. -/
def hooksResolved (w : World Value) : Bool :=
  w.history.all fun o => match o with
    | .hookRan _ _ (some _) => false
    | _ => true

end Sample

/-- The dispatch `d`, if it starts on behalf of `u`. -/
def Obs.joins? (u : UowRef) : Obs J → Option Origin
  | .started task uow => if uow = some u then some task.dispatch else none
  | _ => none

def Obs.acquired? : Obs J → Option (Ticket × String)
  | .acquired ticket key => some (ticket, key)
  | _ => none

def Obs.released? : Obs J → Option (Ticket × String)
  | .released ticket key => some (ticket, key)
  | _ => none

theorem Obs.acquired?_eq_some {o : Obs J} {ticket : Ticket} {key : String} :
    o.acquired? = some (ticket, key) ↔ o = .acquired ticket key := by
  cases o <;> simp [Obs.acquired?]

theorem Obs.released?_eq_some {o : Obs J} {ticket : Ticket} {key : String} :
    o.released? = some (ticket, key) ↔ o = .released ticket key := by
  cases o <;> simp [Obs.released?]

theorem mem_acquired {h : List (Obs J)} {ticket : Ticket} {key : String} :
    (ticket, key) ∈ h.filterMap Obs.acquired? ↔ .acquired ticket key ∈ h := by
  simp [List.mem_filterMap, Obs.acquired?_eq_some]

theorem mem_released {h : List (Obs J)} {ticket : Ticket} {key : String} :
    (ticket, key) ∈ h.filterMap Obs.released? ↔ .released ticket key ∈ h := by
  simp [List.mem_filterMap, Obs.released?_eq_some]

theorem dispatchesSettled_of {h : List (Obs J)} (hsettled : ∀ d ∈ h.filterMap (Obs.joins? u),
    ∃ p ∈ h.filterMap Obs.settlement?, p.1 = d) : DispatchesSettled u h := by
  intro task hstarted
  obtain ⟨⟨d, e⟩, hmem, heq⟩ := hsettled task.dispatch
    (List.mem_filterMap.mpr ⟨_, hstarted, if_pos rfl⟩)
  obtain ⟨o, ho, hsettlement⟩ := List.mem_filterMap.mp hmem
  obtain rfl : d = task.dispatch := heq
  exact ⟨e, Obs.settlement?_eq_some.mp hsettlement ▸ ho⟩

/-- The lock is handed over to the dispatch of the scope in time. -/
theorem locksReleased_iff_timely :
    ∃ q, Pool.playWhile Sample.hooksResolved Sample.timelyTurns Sample.unawaited = some q ∧
      .acquired ⟨.command 1, some (.scope 0)⟩ "Counter:a" ∈ q.state.history ∧
      LocksReleased (.scope 0) q.state.history ∧ InTime (.scope 0) q.state.history := by
  have hplay : (Pool.playWhile Sample.hooksResolved Sample.timelyTurns Sample.unawaited).any
      fun q => (q.threads (.scope 0)).resolved &&
        decide ((q.state.uows (.scope 0)).created = true ∧
          (⟨.command 1, some (.scope 0)⟩, "Counter:a") ∈ q.state.history.filterMap Obs.acquired? ∧
          (∀ p ∈ q.state.history.filterMap Obs.acquired?,
            p ∈ q.state.history.filterMap Obs.released?) ∧
          ∀ d ∈ q.state.history.filterMap (Obs.joins? (.scope 0)),
            ∃ p ∈ q.state.history.filterMap Obs.settlement?, p.1 = d) := by
    decide +kernel
  obtain ⟨q, hq, hfacts⟩ := (Option.any_eq_true _ _).mp hplay
  rw [Bool.and_eq_true, decide_eq_true_eq, mem_acquired] at hfacts
  obtain ⟨hresolved, hcreated, hacquired, hall, hsettled⟩ := hfacts
  have hreleased : LocksReleased (.scope 0) q.state.history := fun d key hmem =>
    mem_released.mp (hall _ (mem_acquired.mpr hmem))
  have hrun := Pool.run_of_playWhile (C := HooksResolve)
    (fun _ t ht _ _ _ hmem => by
      have hhook := List.all_eq_true.mp ht _ hmem
      cases hhook) hq
  exact ⟨q, hq, hacquired, hreleased, (locksReleased_iff hrun rfl hcreated
    (.inl (Async.eq_pure_of_resolved hresolved)) (dispatchesSettled_of hsettled)).mp hreleased⟩

/-- The lock is handed over to the dispatch of the scope after the scope has settled, and is
held for ever. -/
theorem locksReleased_fails :
    ∃ q, Pool.play Sample.lateTurns Sample.unawaited = some q ∧
      q.threads (.scope 0) = .pure () ∧ DispatchesSettled (.scope 0) q.state.history ∧
      ¬ LocksReleased (.scope 0) q.state.history := by
  have hplay : (Pool.play Sample.lateTurns Sample.unawaited).any fun q =>
      (q.threads (.scope 0)).resolved &&
        decide ((⟨.command 1, some (.scope 0)⟩, "Counter:a") ∈
            q.state.history.filterMap Obs.acquired? ∧
          (⟨.command 1, some (.scope 0)⟩, "Counter:a") ∉
            q.state.history.filterMap Obs.released? ∧
          ∀ d ∈ q.state.history.filterMap (Obs.joins? (.scope 0)),
            ∃ p ∈ q.state.history.filterMap Obs.settlement?, p.1 = d) := by
    decide +kernel
  obtain ⟨q, hq, hfacts⟩ := (Option.any_eq_true _ _).mp hplay
  rw [Bool.and_eq_true, decide_eq_true_eq, mem_acquired, mem_released] at hfacts
  obtain ⟨hresolved, hacquired, hreleased, hsettled⟩ := hfacts
  exact ⟨q, hq, Async.eq_pure_of_resolved hresolved, dispatchesSettled_of hsettled,
    fun h => hreleased (h _ _ hacquired)⟩

end Noddde
