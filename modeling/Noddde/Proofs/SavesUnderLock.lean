import Noddde.Proofs.LocksExclude
/-!
# Saves under a lock

As nobody else loads the instance, what a lifecycle has loaded stays current until its own
unit of work saves it, and a unit of work saves it at most once.  So the version check of
the stores never fires.
-/

namespace Noddde

variable {J Infra : Type} {wiring : Wiring J Infra} {x : Subject} {u : UowRef} {s t : World J}

/-! ## What a step does to a version -/

theorem Stores.version_same {operation : Operation J} (h : Stores wiring operation s t)
    {slot : Bool × String} (hslot : ∀ a ∈ operation.advance?, a.slot ≠ slot) :
    t.version slot = s.version slot := by
  cases operation with
  | saveEvents aggregateName aggregateId events expectedVersion =>
      obtain ⟨eventStore, hsave, rfl⟩ := h
      rw [version_of_saveEvents hsave]
      split
      · rename_i heq
        by_cases hempty : events.length = 0
        · rw [hempty, Nat.add_zero]
        · refine absurd heq.symm (hslot ⟨true, _, expectedVersion, events.length⟩ ?_)
          rw [Operation.advance?, advanceOf, if_pos rfl, if_neg hempty]
          rfl
      · rfl
  | saveState aggregateName aggregateId state expectedVersion =>
      obtain ⟨stateStore, hsave, rfl⟩ := h
      rw [version_of_saveState hsave, if_neg fun heq => ?_]
      exact hslot ⟨false, _, expectedVersion, 1⟩ rfl heq.symm
  | saveIdempotency => obtain ⟨_, _, rfl⟩ := h; rfl
  | updateView => obtain ⟨_, rfl⟩ := h; rfl
  | saveOutbox => obtain rfl : t = _ := h; rfl
  | saveSaga => obtain ⟨_, _, rfl⟩ := h; rfl

/-- Only a save changes the version of an instance. -/
theorem Step.version_eq [JsValue J] (h : Step wiring x s t) (slot : Bool × String) :
    t.version slot = s.version slot ∨ ∃ v operation rest r, Running v (operation :: rest) s ∧
      Stores wiring operation s r ∧ t = r.ran v operation ∧
      ∃ a ∈ operation.advance?, a.slot = slot := by
  cases h with
  | @ran _ r v operation rest running stores =>
      by_cases hslot : ∀ a ∈ operation.advance?, a.slot ≠ slot
      · exact .inl (stores.version_same hslot)
      · push Not at hslot
        exact .inr ⟨v, operation, rest, r, running, stores, rfl, hslot⟩
  | checked =>
      unfold World.checked
      dsimp only
      split <;> exact .inl rfl
  | @refused _ r u operation e rest running refuses =>
      cases operation with
      | saveOutbox entries => exact refuses.elim
      | saveEvents | saveState | saveSaga => obtain ⟨_, rfl⟩ := refuses; exact .inl rfl
      | saveIdempotency => obtain ⟨_, _, rfl⟩ := refuses; exact .inl rfl
      | updateView => obtain rfl : r = s := refuses; exact .inl rfl
  | @entered _ task uow =>
      obtain ⟨_, _, h⟩ := Locker.enter_eq ⟨task.dispatch, uow⟩ task.aggregateName
        task.aggregateId s
      rw [h]
      exact .inl rfl
  | @released _ task =>
      obtain ⟨_, _, h⟩ := Locker.release_eq ⟨task.dispatch, none⟩ task.aggregateName
        task.aggregateId s
      rw [h]
      exact .inl rfl
  | @ranSnapshotHook _ u aggregateName aggregateId snapshot saved =>
      cases saved <;> exact .inl rfl
  | @ranReleaseHook _ u ticket aggregateName aggregateId =>
      obtain ⟨_, _, h⟩ := Locker.release_eq ticket aggregateName aggregateId s
      rw [h]
      exact .inl rfl
  | _ => exact .inl rfl

/-- A save of an aggregate is refused only for its version. -/
theorem Refuses.version_ne {operation : Operation J} {e : Err}
    (h : Refuses wiring operation e s t) (hsave : operation.isSave = true) :
    ∃ a ∈ operation.advance?, s.version a.slot ≠ a.base := by
  cases operation with
  | saveEvents aggregateName aggregateId events expectedVersion =>
      obtain ⟨hrefused, -⟩ := h
      unfold EventStore.save at hrefused
      split at hrefused
      · cases hrefused
      · rename_i hempty
        refine ⟨⟨true, compositeKey aggregateName aggregateId, expectedVersion, events.length⟩,
          ?_, fun heq => ?_⟩
        · rw [Operation.advance?, advanceOf, if_pos rfl, if_neg hempty]
          rfl
        · have hlength : (s.eventStore.stream (compositeKey aggregateName aggregateId)).length =
              expectedVersion := heq
          simp [hlength] at hrefused
  | saveState aggregateName aggregateId state expectedVersion =>
      obtain ⟨hrefused, -⟩ := h
      refine ⟨⟨false, compositeKey aggregateName aggregateId, expectedVersion, 1⟩, rfl,
        fun heq => ?_⟩
      have hversion : StateStore.version s.stateStore (compositeKey aggregateName aggregateId) =
          expectedVersion := heq
      simp [StateStore.save, hversion] at hrefused
  | saveIdempotency | updateView | saveOutbox | saveSaga => cases hsave

/-! ## Contributions under a lock -/

/-- Of the operations of a contribution, only the first one advances an instance. -/
theorem Contribution.operations_once {task : Task J} {c : Contribution J} {k k' : Nat}
    (h : c.Computed wiring task k k') : OnceEach (c.operations wiring task) := by
  obtain ⟨_, -, -, heffects⟩ := h.batch
  have hnone : ∀ op ∈ c.effects, op.advance? = none := by
    intro op hop
    have heffect := heffects.isEffect op hop
    cases op with
    | updateView | saveOutbox => rfl
    | saveEvents | saveState | saveIdempotency | saveSaga => cases heffect
  have hrest : ∀ rest, (∀ op ∈ rest, op.advance? = none) → OnceEach (c.save task :: rest) := by
    intro rest hrest
    refine List.pairwise_cons.mpr ⟨fun op hop a _ a' ha' => ?_, ?_⟩
    · rw [hrest op hop] at ha'
      cases ha'
    · refine List.Pairwise.imp_of_mem (fun hop _ _ a ha => ?_) (List.pairwise_of_forall
        (R := fun _ _ => True) fun _ _ => trivial)
      rw [hrest _ hop] at ha
      cases ha
  unfold Contribution.operations claimsOf
  split
  · refine hrest (_ :: c.effects) fun op hop => ?_
    rcases List.mem_cons.mp hop with rfl | hop
    · rfl
    · exact hnone op hop
  · exact hrest c.effects hnone

theorem contributionsIn_ne_nil {task : Task J} {loaded : Loaded J}
    {newEvents events : List (Event J)} {h : List (Obs J)}
    (hmem : .contributed task u loaded newEvents events ∈ h) : contributionsIn wiring h ≠ [] := by
  induction h with
  | nil => cases hmem
  | cons o rest ih =>
      rcases List.mem_cons.mp hmem with rfl | hmem
      · simp [contributionsIn]
      · have hrest := ih hmem
        cases o with
        | contributed => simp [contributionsIn]
        | _ => exact hrest

/-! ## No save meets a conflict -/

/-- What was loaded of an instance is current until its own unit of work saves it. -/
structure Current (w : World J) : Prop where
  version : ∀ task u loaded, LoadedBy task u loaded w.history → (w.uows u).outcome = none →
    w.version (loaded.isEventSourced, task.key) = loaded.version ∨
      ∃ op ∈ (w.uows u).executed, ∃ a ∈ op.advance?,
        a.slot = (loaded.isEventSourced, task.key)
  source : ∀ u, ∀ op ∈ (w.uows u).operations, ∀ a ∈ op.advance?,
    ∃ task loaded newEvents events, .contributed task u loaded newEvents events ∈ w.history ∧
      loaded.advance? task newEvents = some a
  once : ∀ u, (w.uows u).outcome = none → OnceEach (w.uows u).operations
  saves : ∀ u op e, .refused u op e ∈ w.history → op.isSave = false

theorem current_empty : Current ({} : World J) where
  version task u loaded h := by simp [LoadedBy] at h
  source := by simp
  once u _ := List.Pairwise.nil
  saves := by simp

namespace Current

theorem contribution (hs : Current s) (hversioned : Versioned wiring s) {op : Operation J}
    (hop : op ∈ (s.uows u).operations) {a : Advance} (ha : a ∈ op.advance?) :
    ∃ task loaded newEvents events, .contributed task u loaded newEvents events ∈ s.history ∧
      LoadedBy task u loaded s.history ∧ a.slot = (loaded.isEventSourced, task.key) ∧
      a.base = loaded.version := by
  obtain ⟨task, loaded, newEvents, events, hmem, hadvance⟩ := hs.source u op hop a ha
  obtain ⟨hsourced, hkey, hbase, -⟩ := advanceOf_eq_some hadvance
  exact ⟨task, loaded, newEvents, events, hmem, hversioned.contributed _ _ _ _ _ hmem,
    by rw [Advance.slot, hsourced, hkey], hbase⟩

variable [JsValue J]

theorem unsettled (hinv : Inv wiring s) (h : Step wiring x s t)
    (hu : (t.uows u).outcome = none) : (s.uows u).outcome = none := by
  by_contra hsettled
  obtain ⟨b, hb⟩ := Option.ne_none_iff_exists'.mp hsettled
  rw [(h.uow u).outcome (hinv.units u) hb] at hu
  cases hu

theorem step_version (hs : Current s) (hguards : Guards s) (hlocked : Locked s) (hinv : Inv wiring s)
    (hversioned : Versioned wiring s) (h : Step wiring x s t) {task : Task J} {loaded : Loaded J}
    (hloaded : LoadedBy task u loaded t.history) (hu : (t.uows u).outcome = none) :
    t.version (loaded.isEventSourced, task.key) = loaded.version ∨
      ∃ op ∈ (t.uows u).executed, ∃ a ∈ op.advance?,
        a.slot = (loaded.isEventSourced, task.key) := by
  rcases h.loadedBy hversioned hloaded with hold | ⟨-, hversion, o, rfl⟩
  · have hunsettled := unsettled hinv h hu
    rcases hs.version task u loaded hold hunsettled with hcurrent | ⟨op, hop, ha⟩
    · rcases h.version_eq (loaded.isEventSourced, task.key) with hsame |
        ⟨v, operation, rest, r, running, stores, rfl, a, ha, hslot⟩
      · exact .inl (hsame.trans hcurrent)
      · -- whoever saves the instance has loaded it, and only `u` has
        have hmem : operation ∈ (s.uows v).operations := by
          rw [running.operations]
          exact List.mem_append_right _ List.mem_cons_self
        obtain ⟨task', loaded', _, _, -, hloaded', hslot', -⟩ :=
          hs.contribution hversioned hmem ha
        have hkey : task'.key = task.key := by
          rw [hslot] at hslot'
          exact (Prod.mk.inj hslot').2.symm
        obtain ⟨rfl, -⟩ := hguards.exclusive hlocked hinv hloaded' hold hkey running.outcome hunsettled
        refine .inr ⟨operation, ?_, a, ha, hslot⟩
        rw [(Versioned.uow_ran stores).2]
        exact List.mem_append_right _ (List.mem_singleton_self _)
    · refine .inr ⟨op, ?_, ha⟩
      cases (h.uow u).operations with
      | same _ executed => exact executed ▸ hop
      | contributed _ heq =>
          rw [heq, World.uows_contributed, Function.update_self]
          exact hop
      | enlisted _ _ _ executed => exact executed ▸ hop
      | ran _ stores heq =>
          rw [heq, (Versioned.uow_ran stores).2]
          exact List.mem_append_left _ hop
      | discarded _ _ executed => exact executed ▸ hop
  · exact .inl hversion.symm

theorem step_source (hs : Current s) (h : Step wiring x s t) {op : Operation J}
    (hop : op ∈ (t.uows u).operations) {a : Advance} (ha : a ∈ op.advance?) :
    ∃ task loaded newEvents events, .contributed task u loaded newEvents events ∈ t.history ∧
      loaded.advance? task newEvents = some a := by
  have hsub : s.history ⊆ t.history := h.adds.grows.subset
  have hold : op ∈ (s.uows u).operations → ∃ task loaded newEvents events,
      .contributed task u loaded newEvents events ∈ t.history ∧
        loaded.advance? task newEvents = some a := by
    intro hop
    obtain ⟨task, loaded, newEvents, events, hmem, hadvance⟩ := hs.source u op hop a ha
    exact ⟨task, loaded, newEvents, events, hsub hmem, hadvance⟩
  cases (h.uow u).operations with
  | same operations => exact hold (operations ▸ hop)
  | @contributed task c uuids contributes heq =>
      subst heq
      rw [World.uows_contributed, Function.update_self] at hop
      rcases List.mem_append.mp hop with hop | hop
      · exact hold hop
      · rcases Contribution.mem_operations contributes.computed hop with rfl | hnone
        · rw [Contribution.advance_save contributes.computed] at ha
          refine ⟨task, c.loaded, c.newEvents, c.events, ?_, ha⟩
          rw [World.history_contributed]
          simp [contributionNotes]
        · rw [hnone] at ha
          cases ha
  | enlisted noAdvance _ operations =>
      rw [operations] at hop
      rcases List.mem_append.mp hop with hop | hop
      · exact hold hop
      · rw [List.mem_singleton.mp hop, noAdvance] at ha
        cases ha
  | ran _ stores heq =>
      rw [heq, (Versioned.uow_ran stores).1] at hop
      exact hold hop
  | discarded _ operations =>
      rw [operations] at hop
      cases hop

omit [JsValue J] in
/-- Under a lock a unit of work gets at most one contribution for an instance. -/
theorem contributed_apart (hs : Current s) (hguards : Guards s) (hlocked : Locked s) (hinv : Inv wiring s)
    (hversioned : Versioned wiring s) (hpess : wiring.Pessimistic) {task : Task J}
    {c : Contribution J} {uuids : Nat} (contributes : Contributes wiring task u c uuids s)
    {op op' : Operation J} (hop : op ∈ (s.uows u).operations)
    (hop' : op' ∈ c.operations wiring task) {a a' : Advance} (ha : a ∈ op.advance?)
    (ha' : a' ∈ op'.advance?) : a.slot ≠ a'.slot := by
  intro hslot
  rcases Contribution.mem_operations contributes.computed hop' with rfl | hnone
  · rw [Contribution.advance_save contributes.computed] at ha'
    obtain ⟨hsourced, hkey, -⟩ := advanceOf_eq_some ha'
    obtain ⟨task', loaded', newEvents, events, hmem, hloaded', hslot', -⟩ :=
      hs.contribution hversioned hop ha
    rw [hslot, Advance.slot, hsourced, hkey] at hslot'
    have hu := ((hinv.units u).fresh contributes.isOpen).2
    obtain ⟨-, rfl⟩ := hguards.exclusive hlocked hinv hloaded' contributes.loaded
      (Prod.mk.inj hslot').2.symm hu hu
    cases himplicit : u.implicit with
    | true =>
        rw [(contributes.first himplicit).1] at hop
        cases hop
    | false =>
        obtain ⟨timeoutMs, hstrategy⟩ := hpess task'.aggregateName
        have habout : .contributed task' u loaded' newEvents events ∈
            about (.dispatch task'.dispatch) s.history := by
          refine (mem_about ?_).mpr hmem
          simp [Obs.subject, Subject.lifecycle, himplicit]
        exact contributionsIn_ne_nil habout (contributes.once himplicit timeoutMs hstrategy)
  · rw [hnone] at ha'
    cases ha'

theorem step_once (hs : Current s) (hguards : Guards s) (hlocked : Locked s) (hinv : Inv wiring s)
    (hversioned : Versioned wiring s) (hpess : wiring.Pessimistic) (h : Step wiring x s t)
    (hu : (t.uows u).outcome = none) : OnceEach (t.uows u).operations := by
  have hold := hs.once u (unsettled hinv h hu)
  cases (h.uow u).operations with
  | same operations => exact operations ▸ hold
  | contributed contributes heq =>
      rw [heq, World.uows_contributed, Function.update_self]
      exact List.pairwise_append.mpr ⟨hold, Contribution.operations_once contributes.computed,
        fun op hop op' hop' a ha a' ha' =>
          hs.contributed_apart hguards hlocked hinv hversioned hpess contributes hop hop' ha ha'⟩
  | enlisted noAdvance _ operations =>
      rw [operations]
      refine List.pairwise_append.mpr ⟨hold, List.pairwise_singleton _ _, ?_⟩
      intro op _ op' hop' a _ a' ha'
      rw [List.mem_singleton.mp hop', noAdvance] at ha'
      cases ha'
  | ran _ stores heq =>
      rw [heq, (Versioned.uow_ran stores).1]
      exact hold
  | discarded outcome => rw [outcome] at hu; cases hu

theorem step_saves (hs : Current s) (hversioned : Versioned wiring s) (h : Step wiring x s t)
    {op : Operation J} {e : Err} (hmem : .refused u op e ∈ t.history) : op.isSave = false := by
  rcases h.explained hmem with hold | ⟨r, rest, running, refuses, -⟩
  · exact hs.saves u op e hold
  · by_contra hsave
    obtain ⟨a, ha, hversion⟩ := refuses.version_ne (Bool.of_not_eq_false hsave)
    have hop : op ∈ (s.uows u).operations := by
      rw [running.operations]
      exact List.mem_append_right _ List.mem_cons_self
    obtain ⟨task, loaded, _, _, -, hloaded, hslot, hbase⟩ := hs.contribution hversioned hop ha
    rcases hs.version task u loaded hloaded running.outcome with hcurrent |
      ⟨op', hop', a', ha', hslot'⟩
    · rw [hslot, hbase] at hversion
      exact hversion hcurrent
    · -- the same unit of work would have saved the instance twice
      have honce := hs.once u running.outcome
      rw [running.operations] at honce
      exact (List.pairwise_append.mp honce).2.2 op' hop' op List.mem_cons_self a' ha' a ha
        (hslot'.trans hslot.symm)

theorem step (hs : Current s) (hguards : Guards s) (hlocked : Locked s) (hinv : Inv wiring s)
    (hversioned : Versioned wiring s) (hpess : wiring.Pessimistic) (h : Step wiring x s t) :
    Current t where
  version _ _ _ hloaded hu := hs.step_version hguards hlocked hinv hversioned h hloaded hu
  source _ _ hop _ ha := hs.step_source h hop ha
  once _ hu := hs.step_once hguards hlocked hinv hversioned hpess h hu
  saves _ _ _ hmem := hs.step_saves hversioned h hmem

end Current

/-! ## Runs -/

section Runs

variable [JsValue J] {C : World J → World J → Prop} {workload : Workload J} {q : Process J Infra}

theorem current_of_run (hpess : wiring.Pessimistic) (hrun : Pool.Run C (boot wiring workload) q) :
    Locked q.state ∧ Guards q.state ∧ Current q.state := by
  have hall : ((∀ u, HooksAsked wiring u q.state) ∧ Versioned wiring q.state) ∧
      ((∀ u, Orderly u q.state.history) ∧ ∀ u, HooksInTurn u q.state) ∧
      Locked q.state ∧ Guards q.state ∧ Current q.state := by
    apply steps_induction wiring (I := fun w =>
      ((∀ u, HooksAsked wiring u w) ∧ Versioned wiring w) ∧
        ((∀ u, Orderly u w.history) ∧ ∀ u, HooksInTurn u w) ∧
          Locked w ∧ Guards w ∧ Current w) hrun
    · exact ⟨⟨fun _ => hooksAsked_empty, versioned_empty⟩,
        ⟨fun _ => trivial, fun _ => hooksInTurn_empty⟩, locked_empty, guards_empty, current_empty⟩
    · rintro s t x hinv _ h ⟨⟨hhooks, hversioned⟩, ⟨horderly, hturns⟩, hlocked, hguards,
        hcurrent⟩
      exact ⟨⟨fun u => (hhooks u).step hinv h, hversioned.step hhooks hinv h⟩,
        ⟨fun u => (horderly u).step hinv (hturns u) h, fun u => (hturns u).step h⟩,
        hlocked.step hinv horderly hturns h, hguards.step hlocked hinv hpess h,
        hcurrent.step hguards hlocked hinv hversioned hpess h⟩
  exact hall.2.2

/-- Pessimistic locks exclude conflicts, in every run and whatever else fails: while the
unit of work of a lifecycle that has loaded an instance has not settled, its dispatch holds
the lock and no other lifecycle has loaded the instance; what was loaded is the version of
the instance until that unit of work saves it; and no save of an aggregate is ever refused. -/
theorem pessimistic_excludes (hpess : wiring.Pessimistic)
    (hrun : Pool.Run C (boot wiring workload) q) :
    (∀ task u loaded, LoadedBy task u loaded q.state.history →
      (q.state.uows u).outcome = none →
      (q.state.locks task.key).holder = some ⟨task.dispatch, u.joined⟩ ∧
      (q.state.version (loaded.isEventSourced, task.key) = loaded.version ∨
        ∃ op ∈ (q.state.uows u).executed, ∃ a ∈ op.advance?,
          a.slot = (loaded.isEventSourced, task.key)) ∧
      ∀ task' v loaded', LoadedBy task' v loaded' q.state.history →
        (q.state.uows v).outcome = none → task'.key = task.key → v = u ∧ task' = task) ∧
    ∀ u op e, .refused u op e ∈ q.state.history → op.isSave = false := by
  have hinv := inv_of_run wiring hrun
  obtain ⟨hlocked, hguards, hcurrent⟩ := current_of_run hpess hrun
  refine ⟨fun task u loaded hloaded hu => ⟨hguards.held hlocked hloaded hu,
    hcurrent.version task u loaded hloaded hu, ?_⟩, hcurrent.saves⟩
  intro task' v loaded' hloaded' hv hkey
  exact hguards.exclusive hlocked hinv hloaded' hloaded hkey hv hu

end Runs

/-! ## Two commands for one lock -/

namespace Sample

/-- The second command waits for the lock while the first one has loaded the counter. -/
def queued : Process Value Unit :=
  boot locking (work [call (add "a" (some 2)), call (add "a" (some 3))])

theorem locking_pessimistic : locking.Pessimistic := fun _ => ⟨none, rfl⟩

/-- The unit of work of the observation has loaded its instance and not settled. -/
def isLoading (w : World Value) : Obs Value → Bool
  | .loadedEvents _ u (.ok _) _ => (w.uows u).outcome.isNone
  | _ => false

end Sample

theorem pessimistic_excludes_queued :
    ∃ q, Pool.play (Sample.turns (.command 0) 5 ++ Sample.turns (.command 1) 2) Sample.queued =
        some q ∧ (q.state.locks "Counter:a").queue.length = 1 ∧
      (∀ u op e, .refused u op e ∈ q.state.history → op.isSave = false) ∧
      ∃ task u loaded, LoadedBy task u loaded q.state.history ∧
        (q.state.locks task.key).holder = some ⟨task.dispatch, u.joined⟩ := by
  have hplay : (Pool.play (Sample.turns (.command 0) 5 ++ Sample.turns (.command 1) 2)
      Sample.queued).any fun q =>
      decide ((q.state.locks "Counter:a").queue.length = 1) &&
        q.state.history.any (Sample.isLoading q.state) := by
    decide +kernel
  obtain ⟨q, hq, hfacts⟩ := (Option.any_eq_true _ _).mp hplay
  rw [Bool.and_eq_true, decide_eq_true_eq] at hfacts
  obtain ⟨hqueue, hloading⟩ := hfacts
  obtain ⟨hexcludes, hsaves⟩ := pessimistic_excludes Sample.locking_pessimistic
    (Pool.run_of_play (C := fun _ _ => True) (fun _ _ => trivial) hq)
  obtain ⟨o, ho, hunsettled⟩ := List.any_eq_true.mp hloading
  refine ⟨q, hq, hqueue, hsaves, ?_⟩
  cases o with
  | loadedEvents task u result stream =>
      cases result with
      | ok loaded =>
          have hloaded : LoadedBy task u loaded q.state.history := .inl ⟨stream, ho⟩
          exact ⟨task, u, loaded, hloaded,
            (hexcludes _ _ _ hloaded (Option.isNone_iff_eq_none.mp hunsettled)).1⟩
      | error e => cases hunsettled
  | _ => cases hunsettled

end Noddde
