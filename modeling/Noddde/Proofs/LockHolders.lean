import Noddde.Proofs.Locks
/-!
# The holders of the locks

A lock that was acquired for a unit of work is given back by a completion hook of that unit
of work, and by nothing else; a dispatch on its own gives its lock back before it settles.
-/

namespace Noddde

variable {J Infra : Type} {wiring : Wiring J Infra} {x : Subject} {u : UowRef} {s t : World J}

/-! ## Releases -/

/-- The hook that gives back the lock of `task`, which has joined `u`. -/
def Task.releaseHook (task : Task J) (u : UowRef) : Hook J :=
  .release ⟨task.dispatch, some u⟩ task.aggregateName task.aggregateId

def Hook.ticket? : Hook J → Option Ticket
  | .release ticket _ _ => some ticket
  | .saveSnapshot .. => none

@[simp] theorem Task.releaseHook_ticket (task : Task J) (u : UowRef) :
    (task.releaseHook u).ticket? = some ⟨task.dispatch, some u⟩ := rfl

theorem Locker.mem_release_released {ticket ticket' : Ticket} {aggregateName : String}
    {aggregateId : ID} {key : String}
    (h : .released ticket' key ∈ (release ticket aggregateName aggregateId s).2.history) :
    .released ticket' key ∈ s.history ∨
      ticket' = ticket ∧ key = compositeKey aggregateName aggregateId := by
  have hcases : (Obs.released ticket' key : Obs J) =
      .released ticket (compositeKey aggregateName aggregateId) ∨
      .released ticket' key ∈ s.history := by
    unfold release at h
    dsimp only at h
    split at h
    · exact List.mem_cons.mp h
    · split at h
      · rcases List.mem_cons.mp h with heq | h
        · cases heq
        · exact List.mem_cons.mp h
      · exact List.mem_cons.mp h
  rcases hcases with heq | hmem
  · obtain ⟨rfl, rfl⟩ := Obs.released.inj heq
    exact .inr ⟨rfl, rfl⟩
  · exact .inl hmem

theorem LockChange.givenBack (h : LockChange s t) {ticket : Ticket} {key : String}
    (hmem : .released ticket key ∈ t.history) :
    .released ticket key ∈ s.history ∨
      (∃ task, .started task none ∈ s.history ∧ Over task.dispatch s ∧
        ticket = ⟨task.dispatch, none⟩ ∧ key = task.key ∧ t.uows = s.uows) ∨
      ∃ u aggregateName aggregateId, ticket.uow = some u ∧
        (s.frames u).running.head? = some (.release ticket aggregateName aggregateId) ∧
        key = compositeKey aggregateName aggregateId ∧
        t = (Locker.release ticket aggregateName aggregateId s).2.hookEnded u
          (.release ticket aggregateName aggregateId) := by
  cases h with
  | same _ spares =>
      obtain ⟨new, hnew, hspares⟩ := spares
      rw [hnew] at hmem
      rcases List.mem_append.mp hmem with hmem | hmem
      · simpa [Obs.lockKey?] using hspares _ hmem
      · exact .inl hmem
  | granted _ _ _ eq =>
      subst eq
      exact .inl (by simpa [World.note] using hmem)
  | @entered task uow _ _ _ eq =>
      subst eq
      obtain ⟨new, hnew, hobs⟩ := Locker.enter_history ⟨task.dispatch, uow⟩
        task.aggregateName task.aggregateId s
      rw [hnew] at hmem
      rcases List.mem_append.mp hmem with hmem | hmem
      · rcases hobs _ hmem with ⟨_, heq⟩ | ⟨_, heq⟩ <;> cases heq
      · exact .inl hmem
  | timedOut _ eq =>
      subst eq
      exact .inl (by simpa [World.note, World.setLock] using hmem)
  | released begun _ _ ended eq =>
      subst eq
      rcases Locker.mem_release_released hmem with hmem | ⟨rfl, rfl⟩
      · exact .inl hmem
      · exact .inr (.inl ⟨_, begun, ended, rfl, rfl, Locker.release_uows ..⟩)
  | @ranHook u ticket' aggregateName aggregateId joined running eq =>
      subst eq
      have hmem : .released ticket key ∈
          (Locker.release ticket' aggregateName aggregateId s).2.history := by
        simpa [World.hookEnded, World.note, World.setFrame] using hmem
      rcases Locker.mem_release_released hmem with hmem | ⟨rfl, rfl⟩
      · exact .inl hmem
      · exact .inr (.inr ⟨u, aggregateName, aggregateId, joined, running, rfl, rfl⟩)

/-! ## The invariant of the locks -/

structure Locked (w : World J) : Prop where
  locks : ∀ key, LockOk key w.history (w.locks key)
  tasks : ∀ task task' uow uow', .started task uow ∈ w.history → .started task' uow' ∈ w.history →
    task.dispatch = task'.dispatch → task = task' ∧ uow = uow'
  hooks : ∀ u, ∀ hook ∈ releaseHooks u w, ∃ task, hook = task.releaseHook u ∧
    .started task (some u) ∈ w.history ∧ ReleaseRegistered task u w.history ∧
    .acquired ⟨task.dispatch, some u⟩ task.key ∈ w.history ∧
    .released ⟨task.dispatch, some u⟩ task.key ∉ w.history
  once : ∀ u, ((releaseHooks u w).filterMap Hook.ticket?).Nodup
  given : ∀ d u key, .released ⟨d, some u⟩ key ∈ w.history → (w.uows u).outcome ≠ none ∧
    ∃ task, task.dispatch = d ∧ .started task (some u) ∈ w.history ∧
      ReleaseRegistered task u w.history

theorem locked_empty : Locked ({} : World J) where
  locks := LockOk.empty
  tasks := by simp
  hooks u hook hmem := by simp [releaseHooks, heldHooks, getOrCreate] at hmem
  once u := List.nodup_nil
  given := by simp

namespace Locked

theorem holder_of_running (hs : Locked s) {ticket : Ticket} {aggregateName : String}
    {aggregateId : ID}
    (running : (s.frames u).running.head? = some (.release ticket aggregateName aggregateId)) :
    ∃ task, .release ticket aggregateName aggregateId = task.releaseHook u ∧
      .started task (some u) ∈ s.history ∧ ReleaseRegistered task u s.history ∧
      (s.locks (compositeKey aggregateName aggregateId)).holder = some ticket := by
  have hmem : .release ticket aggregateName aggregateId ∈ releaseHooks u s :=
    (releaseHooks_ran running).mem_iff.mpr List.mem_cons_self
  obtain ⟨task, heq, hstarted, hregistered, hacquired, hreleased⟩ := hs.hooks u _ hmem
  refine ⟨task, heq, hstarted, hregistered, ?_⟩
  obtain ⟨rfl, rfl, rfl⟩ := Hook.release.inj heq
  exact (hs.locks task.key).owner _ hacquired hreleased

variable [JsValue J]

theorem step_tasks (hs : Locked s) (h : Step wiring x s t) {task task' : Task J}
    {uow uow' : Option UowRef} (hmem : .started task uow ∈ t.history)
    (hmem' : .started task' uow' ∈ t.history) (hd : task.dispatch = task'.dispatch) :
    task = task' ∧ uow = uow' := by
  -- a dispatch starts only once
  have hfresh : ∀ {task task' : Task J} {uow : Option UowRef}, Fresh task.dispatch s →
      .started task' uow ∈ s.history → task.dispatch = task'.dispatch → False := by
    intro task task' uow hfresh hold hd
    have hcall : .started task' uow ∈ about (.call task.dispatch) s.history := by
      rw [hd]
      exact (mem_about rfl).mpr hold
    rw [hfresh.uncalled] at hcall
    cases hcall
  rcases h.explained hmem with hold | ⟨⟨hnew, -⟩, rfl⟩
  · rcases h.explained hmem' with hold' | ⟨⟨hnew, -⟩, -⟩
    · exact hs.tasks _ _ _ _ hold hold' hd
    · exact (hfresh hnew hold hd.symm).elim
  · rcases List.mem_cons.mp hmem' with heq | hold'
    · obtain ⟨rfl, rfl⟩ := Obs.started.inj heq
      exact ⟨rfl, rfl⟩
    · exact (hfresh hnew hold' hd).elim

theorem step_hooks (hs : Locked s) (h : Step wiring x s t) {hook : Hook J}
    (hmem : hook ∈ releaseHooks u t) : ∃ task, hook = task.releaseHook u ∧
      .started task (some u) ∈ t.history ∧ ReleaseRegistered task u t.history ∧
      .acquired ⟨task.dispatch, some u⟩ task.key ∈ t.history ∧
      .released ⟨task.dispatch, some u⟩ task.key ∉ t.history := by
  have hsub : s.history ⊆ t.history := h.adds.grows.subset
  have hold : hook ∈ releaseHooks u s → ∃ task, hook = task.releaseHook u ∧
      .started task (some u) ∈ t.history ∧ ReleaseRegistered task u t.history ∧
      .acquired ⟨task.dispatch, some u⟩ task.key ∈ t.history ∧
      .released ⟨task.dispatch, some u⟩ task.key ∉ t.history := by
    intro hold
    obtain ⟨task, heq, hstarted, hregistered, hacquired, hreleased⟩ := hs.hooks u hook hold
    refine ⟨task, heq, hsub hstarted, hsub hregistered, hsub hacquired, fun hnow => ?_⟩
    rcases h.locks.givenBack hnow with hbefore | ⟨_, -, -, hticket, -⟩ |
      ⟨v, aggregateName, aggregateId, hjoined, running, -, rfl⟩
    · exact hreleased hbefore
    · cases congrArg Ticket.uow hticket
    · -- the hook that has run is not held any more
      obtain rfl : u = v := Option.some.inj hjoined
      have honce := (((releaseHooks_ran running).filterMap Hook.ticket?).nodup_iff).mp (hs.once u)
      rw [List.filterMap_cons_some (show Hook.ticket? _ = some _ from rfl), List.nodup_cons] at honce
      exact honce.1 (List.mem_filterMap.mpr ⟨hook, hmem, by rw [heq, Task.releaseHook_ticket]⟩)
  cases (h.hooks u).releases with
  | fewer sub => exact hold (sub.subset hmem)
  | ran perm => exact hold (perm.mem_iff.mpr (List.mem_cons_of_mem _ hmem))
  | @registered task begun granted first perm history =>
      rcases List.mem_cons.mp (perm.mem_iff.mp hmem) with heq | hmem
      · have hacquired := granted.elim id ((hs.locks task.key).granted _)
        refine ⟨task, heq, hsub begun, ?_, hsub hacquired, fun hnow => ?_⟩
        · rw [ReleaseRegistered, history]
          exact List.mem_cons_self
        · rw [history] at hnow
          have hbefore : .released ⟨task.dispatch, some u⟩ task.key ∈ s.history := by
            simpa using hnow
          obtain ⟨-, task', hd, hstarted, hregistered⟩ := hs.given _ _ _ hbefore
          obtain ⟨rfl, -⟩ := hs.tasks _ _ _ _ hstarted begun hd
          exact first hregistered
      · exact hold hmem

theorem step_once (hs : Locked s) (h : Step wiring x s t) (u : UowRef) :
    ((releaseHooks u t).filterMap Hook.ticket?).Nodup := by
  cases (h.hooks u).releases with
  | fewer sub => exact (hs.once u).sublist (sub.filterMap _)
  | ran perm =>
      refine List.Nodup.sublist ?_ ((perm.filterMap Hook.ticket?).nodup_iff.mp (hs.once u))
      exact (List.sublist_cons_self _ _).filterMap _
  | @registered task begun granted first perm history =>
      change (releaseHooks u t).Perm (task.releaseHook u :: _) at perm
      rw [(perm.filterMap Hook.ticket?).nodup_iff,
        List.filterMap_cons_some (task.releaseHook_ticket u), List.nodup_cons]
      refine ⟨fun hmem => ?_, hs.once u⟩
      obtain ⟨hook, hhook, hticket⟩ := List.mem_filterMap.mp hmem
      obtain ⟨task', rfl, hstarted, hregistered, -⟩ := hs.hooks u hook hhook
      have hd : task'.dispatch = task.dispatch :=
        congrArg Ticket.dispatch (Option.some.inj hticket)
      obtain ⟨rfl, -⟩ := hs.tasks _ _ _ _ hstarted begun hd
      exact first hregistered

theorem step_given (hs : Locked s) (hinv : Inv wiring s) (horderly : Orderly u s.history)
    (hturns : HooksInTurn u s) (h : Step wiring x s t) {d : Origin} {key : String}
    (hmem : .released ⟨d, some u⟩ key ∈ t.history) : (t.uows u).outcome ≠ none ∧
      ∃ task, task.dispatch = d ∧ .started task (some u) ∈ t.history ∧
        ReleaseRegistered task u t.history := by
  have hsub : s.history ⊆ t.history := h.adds.grows.subset
  have hkept : (s.uows u).outcome ≠ none → (t.uows u).outcome ≠ none := by
    intro hsettled
    obtain ⟨b, hb⟩ := Option.ne_none_iff_exists'.mp hsettled
    simp [(h.uow u).outcome (hinv.units u) hb]
  rcases h.locks.givenBack hmem with hold | ⟨_, -, -, hticket, -⟩ |
    ⟨v, aggregateName, aggregateId, hjoined, running, -, -⟩
  · obtain ⟨hsettled, task, hd, hstarted, hregistered⟩ := hs.given _ _ _ hold
    exact ⟨hkept hsettled, task, hd, hsub hstarted, hsub hregistered⟩
  · cases congrArg Ticket.uow hticket
  · obtain rfl : u = v := Option.some.inj hjoined
    obtain ⟨task, heq, hstarted, hregistered, -⟩ := hs.holder_of_running running
    obtain ⟨hticket, -, -⟩ := Hook.release.inj heq
    refine ⟨hkept fun hnone => ?_, task, (congrArg Ticket.dispatch hticket).symm,
      hsub hstarted, hsub hregistered⟩
    -- hooks only run once the unit of work has settled
    have htaken : ∃ committed within hooks, .hooksTaken u committed within hooks ∈ s.history := by
      by_contra hnever
      push Not at hnever
      rw [(hturns.before hnever).1] at running
      cases running
    obtain ⟨committed, within, hooks, htaken⟩ := htaken
    obtain ⟨new, old, hhistory⟩ := List.append_of_mem htaken
    obtain ⟨⟨o, ho, hsettles⟩, -⟩ := horderly.follows hhistory rfl
    have hunsettled := (hinv.units u).settled.mp hnone o
      (hhistory ▸ List.mem_append_right _ (List.mem_cons_of_mem _ ho))
    rw [hsettles] at hunsettled
    cases hunsettled

theorem step (hs : Locked s) (hinv : Inv wiring s) (horderly : ∀ u, Orderly u s.history)
    (hturns : ∀ u, HooksInTurn u s) (h : Step wiring x s t) : Locked t where
  locks key := by
    refine h.locks.ok hs.locks (fun u ticket aggregateName aggregateId running => ?_) key
    obtain ⟨_, -, -, -, hholder⟩ := hs.holder_of_running running
    exact hholder
  tasks _ _ _ _ hmem hmem' hd := hs.step_tasks h hmem hmem' hd
  hooks _ _ hmem := hs.step_hooks h hmem
  once u := hs.step_once h u
  given _ u _ hmem := hs.step_given hinv (horderly u) (hturns u) h hmem

end Locked

end Noddde
