import Noddde.Proofs.SavesUnderLock
/-!
# Nobody comes between a load and the settlement

With a lock strategy for every aggregate: from the time when a lifecycle reads an instance
to the settlement of its unit of work, nobody else reads the instance, and only what the
lifecycle itself has enlisted saves it.
-/

namespace Noddde

variable {J Infra : Type} {wiring : Wiring J Infra} {x : Subject} {u : UowRef} {s t : World J}

/-- The instance that a save of an aggregate is about. -/
def Operation.instance? : Operation J → Option String
  | .saveEvents aggregateName aggregateId _ _ | .saveState aggregateName aggregateId _ _ =>
      some (compositeKey aggregateName aggregateId)
  | _ => none

/-- The life of `u` has ended. -/
def HasSettled (u : UowRef) (h : List (Obs J)) : Prop := ∃ o ∈ h, o.settles u = true

theorem Inv.settled_iff (hinv : Inv wiring s) :
    HasSettled u s.history ↔ (s.uows u).outcome ≠ none := by
  rw [ne_eq, (hinv.units u).settled, HasSettled]
  push Not
  simp only [ne_eq, Bool.not_eq_false]

/-- Every dispatch that has joined a unit of work settles before the unit of work does. -/
def Awaited (w : World J) : Prop :=
  ∀ task u, .started task (some u) ∈ w.history → HasSettled u w.history →
    ∃ e, .settled task.dispatch e ∈ w.history

/-- Who reads or saves an instance that a lifecycle has read before is that lifecycle, or
the unit of work of that lifecycle has settled. -/
def Obs.apart (o : Obs J) (old : List (Obs J)) : Prop :=
  ∀ task u, Read task u old → ¬ HasSettled u old →
    (∀ task' v, o.reads task' v → task'.key = task.key → task' = task ∧ v = u) ∧
    ∀ v operation, o = .executed v operation → operation.instance? = some task.key →
      v = u ∧ .enlisted u (some task.dispatch) operation ∈ old

/-- Every observation is apart from those before it. -/
abbrev Apart : List (Obs J) → Prop := Causal Obs.apart

/-- The observation is about a read or a save. -/
def Obs.touches : Obs J → Bool
  | .loadedSnapshot .. | .loadedEvents .. | .loadedState .. | .executed .. => true
  | _ => false

theorem Obs.apart_of_idle {o : Obs J} (h : o.touches = false) (old : List (Obs J)) :
    o.apart old := by
  intro task u _ _
  constructor
  · intro task' v hreads
    cases o with
    | loadedSnapshot | loadedEvents | loadedState => cases h
    | _ => exact hreads.elim
  · rintro v operation rfl
    cases h

/-! ## Who has enlisted a save -/

theorem Contribution.eq_save {task : Task J} {c : Contribution J} {k k' : Nat}
    (h : c.Computed wiring task k k') {operation : Operation J}
    (hop : operation ∈ c.operations wiring task) (hsave : operation.isSave = true) :
    operation = c.save task := by
  obtain ⟨_, -, -, heffects⟩ := h.batch
  rcases List.mem_append.mp hop with hop | hop
  · unfold claimsOf at hop
    split at hop
    · rcases List.mem_cons.mp hop with hop | hop
      · exact hop
      · rw [List.mem_singleton.mp hop] at hsave
        cases hsave
    · exact List.mem_singleton.mp hop
  · have heffect := heffects.isEffect operation hop
    cases operation with
    | saveEvents | saveState => cases heffect
    | _ => cases hsave

theorem Contribution.save_instance (task : Task J) (c : Contribution J) :
    (c.save task).instance? = some task.key := by
  unfold Contribution.save
  split <;> rfl

theorem Operation.isSave_of_instance {operation : Operation J} {key : String}
    (h : operation.instance? = some key) : operation.isSave = true := by
  cases operation with
  | saveEvents | saveState => rfl
  | _ => cases h

theorem UowChange.mem_operations (h : UowChange wiring u s t) {operation : Operation J}
    (hop : operation ∈ (t.uows u).operations) (hsave : operation.isSave = true) :
    operation ∈ (s.uows u).operations ∨ ∃ task c uuids, Contributes wiring task u c uuids s ∧
      t = s.contributed wiring task u c uuids ∧ operation = c.save task := by
  cases h with
  | same uow => exact .inl (uow ▸ hop)
  | created _ uow =>
      rw [uow] at hop
      exact .inl hop
  | @contributed task c uuids contributes eq =>
      subst eq
      rw [World.uows_contributed, Function.update_self] at hop
      rcases List.mem_append.mp hop with hop | hop
      · exact .inl hop
      · exact .inr ⟨task, c, uuids, contributes, rfl,
          Contribution.eq_save contributes.computed hop hsave⟩
  | enlistedSaga _ _ eq =>
      subst eq
      simp only [World.enlistAll, Function.update_self] at hop
      rcases List.mem_append.mp hop with hop | hop
      · exact .inl hop
      · rw [List.mem_singleton.mp hop] at hsave
        cases hsave
  | committing _ _ _ eq =>
      rw [eq, World.uow_committing] at hop
      exact .inl hop
  | ran _ stores eq =>
      rw [eq, stores.uow_ran] at hop
      exact .inl hop
  | refused _ refuses eq =>
      rw [eq, refuses.uow_refused] at hop
      exact .inl hop
  | committed _ eq =>
      rw [eq, World.uow_committed] at hop
      exact .inl hop
  | commitRejected _ _ eq =>
      rw [eq, World.uow_commitRejected] at hop
      exact .inl hop
  | rolledBack _ _ eq =>
      rw [eq, World.uow_rolledBack] at hop
      cases hop

/-- The saves of a unit of work are enlisted by lifecycles that run under the lock. -/
def SavesLocked (w : World J) : Prop :=
  ∀ u, ∀ operation ∈ (w.uows u).operations, ∀ key, operation.instance? = some key →
    ∃ task, task.key = key ∧ .enlisted u (some task.dispatch) operation ∈ w.history ∧
      UnderLock task u w

variable [JsValue J]

theorem UnderLock.step {task : Task J} (hlock : UnderLock task u s) (h : Step wiring x s t) :
    UnderLock task u t := by
  have hsub : s.history ⊆ t.history := h.adds.grows.subset
  exact ⟨⟨hsub hlock.begun.1, hlock.begun.2⟩,
    hlock.granted.imp (fun h => hsub h) (fun h => hsub h),
    fun himplicit => (h.uow u).created_mono (hlock.created himplicit)⟩

theorem SavesLocked.step (hs : SavesLocked s) (hpess : wiring.Pessimistic)
    (h : Step wiring x s t) : SavesLocked t := by
  intro u operation hop key hkey
  have hsub : s.history ⊆ t.history := h.adds.grows.subset
  rcases (h.uow u).mem_operations hop (Operation.isSave_of_instance hkey) with hold |
    ⟨task, c, uuids, contributes, heq, rfl⟩
  · obtain ⟨task, htask, henlisted, hlock⟩ := hs u operation hold key hkey
    exact ⟨task, htask, hsub henlisted, hlock.step h⟩
  · obtain ⟨timeoutMs, hstrategy⟩ := hpess task.aggregateName
    have hlock : UnderLock task u s :=
      ⟨contributes.begun, (contributes.guarded timeoutMs hstrategy).1, contributes.created⟩
    refine ⟨task, ?_, ?_, hlock.step h⟩
    · rw [Contribution.save_instance] at hkey
      exact Option.some.inj hkey
    · rw [heq, World.history_contributed]
      refine List.mem_append_left _ (List.mem_append_right _ (List.mem_cons_of_mem _ ?_))
      refine List.mem_reverse.mpr (List.mem_map.mpr ⟨_, ?_, rfl⟩)
      unfold claimsOf
      split
      · exact List.mem_cons_self
      · exact List.mem_cons_self

/-! ## The steps keep apart -/

omit [JsValue J] in
/-- A lifecycle that reads runs on a unit of work that has not settled. -/
theorem Loads.unsettled {task : Task J} (hloads : Loads wiring task u s) (hinv : Inv wiring s)
    (hawaited : Awaited s) (hpess : wiring.Pessimistic) : (s.uows u).outcome = none := by
  cases himplicit : u.implicit with
  | true => exact ((hinv.units u).fresh (hloads.isOpen himplicit)).2
  | false =>
      by_contra hsettled
      obtain ⟨timeoutMs, hstrategy⟩ := hpess task.aggregateName
      have hstarted := hloads.begun.1
      rw [UowRef.joined, himplicit, if_neg Bool.false_ne_true] at hstarted
      obtain ⟨e, he⟩ := hawaited task u hstarted (hinv.settled_iff.mpr hsettled)
      exact (hloads.guarded timeoutMs hstrategy).2.1 e he

theorem Apart.step (hs : Apart s.history) (hguards : Guards s) (hlocked : Locked s)
    (hinv : Inv wiring s) (hsaves : SavesLocked s) (hawaited : Awaited s)
    (hpess : wiring.Pessimistic) (h : Step wiring x s t) : Apart t.history := by
  -- who reads now has the lock, like who has read before and has not settled
  have hreads : ∀ {o : Obs J}, Explained wiring s t o → ∀ task u, Read task u s.history →
      ¬ HasSettled u s.history → ∀ task' v, o.reads task' v → task'.key = task.key →
        task' = task ∧ v = u := by
    intro o hwhy task u hread hunsettled task' v hreads hkey
    have hloads := hwhy.loads hreads
    obtain ⟨timeoutMs, hstrategy⟩ := hpess task'.aggregateName
    have hu : (s.uows u).outcome = none := by rwa [hinv.settled_iff, not_not] at hunsettled
    obtain ⟨rfl, rfl⟩ := hguards.unique hlocked hinv
      ⟨hloads.begun, (hloads.guarded timeoutMs hstrategy).1, hloads.created⟩
      (hguards.reads task u hread) hkey (hloads.unsettled hinv hawaited hpess) hu
    exact ⟨rfl, rfl⟩
  obtain ⟨new, hnew, hexplained⟩ := h.explains
  by_cases hall : ∀ o ∈ new, o.touches = false
  · rw [hnew]
    exact hs.append fun before o after heq => Obs.apart_of_idle (hall o (by simp [heq])) _
  · push Not at hall
    obtain ⟨o, ho, htouches⟩ := hall
    have hwhy := hexplained o ho
    have hnoted : ∀ {o : Obs J}, Explained wiring s t o → t = s.note o →
        (∀ v operation, o ≠ .executed v operation) → Apart t.history := by
      rintro o hwhy rfl hno
      exact ⟨fun task u hread hunsettled => ⟨hreads hwhy task u hread hunsettled,
        fun v operation heq => absurd heq (hno v operation)⟩, hs⟩
    cases o with
    | loadedSnapshot | loadedEvents | loadedState => exact hnoted hwhy hwhy.2 (by simp)
    | executed v operation =>
        obtain ⟨r, rest, running, stores, rfl⟩ := hwhy
        have hhistory : (r.ran v operation).history = .executed v operation :: s.history := by
          rw [← stores.control.history]
          rfl
        rw [hhistory]
        refine ⟨fun task u hread hunsettled => ⟨fun _ _ hreads => hreads.elim, ?_⟩, hs⟩
        rintro v' operation' heq hkey
        obtain ⟨rfl, rfl⟩ := Obs.executed.inj heq
        have hu : (s.uows u).outcome = none := by rwa [hinv.settled_iff, not_not] at hunsettled
        have hmem : operation ∈ (s.uows v).operations := by
          rw [running.operations]
          exact List.mem_append_right _ List.mem_cons_self
        obtain ⟨task', htask, henlisted, hlock⟩ := hsaves v operation hmem _ hkey
        obtain ⟨rfl, rfl⟩ := hguards.unique hlocked hinv hlock (hguards.reads task u hread)
          htask running.outcome hu
        exact ⟨rfl, henlisted⟩
    | _ => exact absurd htouches (by simp [Obs.touches])

/-! ## Runs -/

section Runs

variable {workload : Workload J} {q : Process J Infra}

/-- Pessimistic concurrency excludes conflicts end to end, in every run in which no unit of
work settles before the dispatches that have joined it: from the time when a lifecycle reads
an instance until its unit of work has settled, whoever reads the instance is this lifecycle
itself, and whatever saves the instance was enlisted by its dispatch, on its unit of work;
and no save of an aggregate is ever refused, whatever lock times out and whatever else
fails. -/
theorem loads_exclude (hpess : wiring.Pessimistic)
    (hrun : Pool.Run (fun _ t => Awaited t) (boot wiring workload) q) :
    (∀ new o old, q.state.history = new ++ o :: old →
      ∀ task u, Read task u old → ¬ HasSettled u old →
        (∀ task' v, o.reads task' v → task'.key = task.key → task' = task ∧ v = u) ∧
        ∀ v operation, o = .executed v operation → operation.instance? = some task.key →
          v = u ∧ .enlisted u (some task.dispatch) operation ∈ old) ∧
    ∀ u operation e, .refused u operation e ∈ q.state.history → operation.isSave = false := by
  have hlocks : Pool.Run (fun s t => Awaited t ∧ Locked s ∧ Guards s) (boot wiring workload) q :=
    hrun.imp fun hrun _ hawaited =>
      ⟨hawaited, (current_of_run hpess hrun).1, (current_of_run hpess hrun).2.1⟩
  have hall : Awaited q.state ∧ SavesLocked q.state ∧ Apart q.state.history := by
    apply steps_induction wiring (I := fun w => Awaited w ∧ SavesLocked w ∧ Apart w.history) hlocks
    · exact ⟨by simp [Awaited], by simp [SavesLocked], trivial⟩
    · rintro s t x hinv ⟨hawaited', hlocked, hguards⟩ h ⟨hawaited, hsaves, happart⟩
      exact ⟨hawaited', hsaves.step hpess h,
        happart.step hguards hlocked hinv hsaves hawaited hpess h⟩
  exact ⟨fun new o old heq => hall.2.2.follows heq, (current_of_run hpess hrun).2.2.saves⟩

end Runs

/-! ## A scope and a command for one lock -/

namespace Sample

def oneLock : Process Value Unit :=
  boot locking (work [call (add "a" (some 1))] [⟨(call (add "a" none)).ambient,
    .dispatchCommand "Counter" (add "a" (some 2)) fun _ => .settle⟩])

def isSettlement (d : Origin) : Obs Value → Bool
  | .settled d' _ => d' = d
  | _ => false

/-- The dispatches that have joined a settled unit of work have settled. -/
def awaited (w : World Value) : Bool :=
  w.history.all fun o => match o with
    | .started task (some u) =>
        !w.history.any (Obs.settles u) || w.history.any (isSettlement task.dispatch)
    | _ => true

theorem awaited_of {w : World Value} (h : awaited w = true) : Awaited w := by
  intro task u hstarted ⟨o, ho, hsettles⟩
  have hjoined := List.all_eq_true.mp h _ hstarted
  have hany : w.history.any (Obs.settles u) = true := List.any_eq_true.mpr ⟨o, ho, hsettles⟩
  simp only [hany, Bool.not_true, Bool.false_or] at hjoined
  obtain ⟨o, ho, hsettlement⟩ := List.any_eq_true.mp hjoined
  cases o with
  | settled d e =>
      obtain rfl : d = task.dispatch := of_decide_eq_true hsettlement
      exact ⟨e, ho⟩
  | _ => cases hsettlement

/-- The instance that the last observation has saved, and on which unit of work. -/
def savedNow? : List (Obs Value) → Option (UowRef × Option String)
  | .executed u operation :: _ => some (u, operation.instance?)
  | _ => none

theorem savedNow?_eq_some {h : List (Obs Value)} {u : UowRef} {key : Option String}
    (hnow : savedNow? h = some (u, key)) : ∃ operation old,
      h = .executed u operation :: old ∧ operation.instance? = key := by
  cases h with
  | nil => cases hnow
  | cons o old =>
      cases o with
      | executed v operation =>
          obtain ⟨rfl, rfl⟩ := Prod.mk.inj (Option.some.inj hnow)
          exact ⟨operation, old, rfl, rfl⟩
      | _ => cases hnow

/-- The scope has read the counter `a`. -/
def hasRead : Obs Value → Bool
  | .loadedEvents task u _ _ =>
      decide (task.dispatch = .scoped 0 0 ∧ task.key = "Counter:a" ∧ u = .scope 0)
  | _ => false

theorem read_of_hasRead {h : List (Obs Value)} (hread : h.any hasRead = true) :
    ∃ task, task.dispatch = .scoped 0 0 ∧ task.key = "Counter:a" ∧ Read task (.scope 0) h := by
  obtain ⟨o, ho, hfacts⟩ := List.any_eq_true.mp hread
  cases o with
  | loadedEvents task u loaded stream =>
      obtain ⟨hd, hkey, rfl⟩ := of_decide_eq_true hfacts
      exact ⟨task, hd, hkey, _, ho, rfl, rfl⟩
  | _ => cases hfacts

end Sample

/-- The command waits for the lock while the scope saves what it has loaded. -/
theorem loads_exclude_contended :
    ∃ q, Pool.playWhile Sample.awaited (Sample.turns (.scope 0) 8 ++
        Sample.turns (.command 0) 2 ++ Sample.turns (.scope 0) 3) Sample.oneLock = some q ∧
      (q.state.locks "Counter:a").queue = [⟨.command 0, none⟩] ∧
      ∃ operation old, q.state.history = .executed (.scope 0) operation :: old ∧
        .enlisted (.scope 0) (some (.scoped 0 0)) operation ∈ old := by
  have hplay : (Pool.playWhile Sample.awaited (Sample.turns (.scope 0) 8 ++
      Sample.turns (.command 0) 2 ++ Sample.turns (.scope 0) 3) Sample.oneLock).any fun q =>
        q.state.history.tail.any Sample.hasRead &&
          decide ((q.state.locks "Counter:a").queue = [⟨.command 0, none⟩] ∧
            q.state.history.tail.any (Obs.settles (.scope 0)) = false ∧
            Sample.savedNow? q.state.history = some (.scope 0, some "Counter:a")) := by
    decide +kernel
  obtain ⟨q, hq, hfacts⟩ := (Option.any_eq_true _ _).mp hplay
  rw [Bool.and_eq_true, decide_eq_true_eq] at hfacts
  obtain ⟨hreads, hqueue, hunsettled, hsaved⟩ := hfacts
  obtain ⟨hexclude, -⟩ := loads_exclude Sample.locking_pessimistic
    (Pool.run_of_playWhile (fun _ _ => Sample.awaited_of) hq)
  obtain ⟨operation, old, heq, hinstance⟩ := Sample.savedNow?_eq_some hsaved
  rw [heq, List.tail_cons] at hreads hunsettled
  obtain ⟨task, hd, hkey, hread⟩ := Sample.read_of_hasRead hreads
  have hopen : ¬ HasSettled (.scope 0) old := by
    rintro ⟨o, ho, hsettles⟩
    rw [List.any_eq_false] at hunsettled
    exact hunsettled o ho hsettles
  obtain ⟨-, henlisted⟩ := (hexclude [] _ old heq task (.scope 0) hread hopen).2 _ _ rfl
    (hinstance.trans (congrArg some hkey.symm))
  exact ⟨q, hq, hqueue, operation, old, heq, hd ▸ henlisted⟩

end Noddde
