import Noddde.Proofs.LockHolders
/-!
# No lock leaks

Whoever holds a lock is a dispatch that is still under way, or has left the release to a
completion hook that its unit of work has still to run.  Once those hooks have run, only a
release that came too late for them can be outstanding.
-/

namespace Noddde

variable {J Infra : Type} {wiring : Wiring J Infra} {x : Subject} {u : UowRef} {s t : World J}

/-! ## Who asks for a lock -/

theorem Locker.mem_release_called {ticket ticket' : Ticket} {aggregateName : String}
    {aggregateId : ID} {key : String}
    (h : .acquireCalled ticket' key ∈ (release ticket aggregateName aggregateId s).2.history) :
    .acquireCalled ticket' key ∈ s.history := by
  rcases Locker.mem_release h with hold | ⟨_, heq⟩ | ⟨_, _, heq⟩
  · exact hold
  · cases heq
  · cases heq

/-- A lock is asked for by a dispatch that is under way. -/
theorem LockChange.called (h : LockChange s t) {ticket : Ticket} {key : String}
    (hmem : .acquireCalled ticket key ∈ t.history) :
    .acquireCalled ticket key ∈ s.history ∨ ∃ task uow, .started task uow ∈ s.history ∧
      ticket = ⟨task.dispatch, uow⟩ ∧ key = task.key ∧
      ∀ e, .settled task.dispatch e ∉ s.history := by
  cases h with
  | same _ spares =>
      obtain ⟨new, hnew, hspares⟩ := spares
      rw [hnew] at hmem
      rcases List.mem_append.mp hmem with hmem | hmem
      · simpa [Obs.lockKey?] using hspares _ hmem
      · exact .inl hmem
  | granted _ _ _ eq =>
      subst eq
      exact .inl (by simpa [World.note] using hmem)
  | @entered task uow begun _ unsettled eq =>
      subst eq
      have hcases : .acquireCalled ticket key ∈ s.history ∨
          (Obs.acquireCalled ticket key : Obs J) =
            .acquireCalled ⟨task.dispatch, uow⟩ task.key := by
        unfold Locker.enter at hmem
        dsimp only at hmem
        split at hmem
        · simpa [World.note, World.setLock, or_comm] using hmem
        · simpa [World.note, World.setLock, or_comm] using hmem
      rcases hcases with hold | heq
      · exact .inl hold
      · obtain ⟨rfl, rfl⟩ := Obs.acquireCalled.inj heq
        exact .inr ⟨task, uow, begun, rfl, rfl, unsettled⟩
  | timedOut _ eq =>
      subst eq
      exact .inl (by simpa [World.note, World.setLock] using hmem)
  | released _ _ _ _ eq =>
      subst eq
      exact .inl (Locker.mem_release_called hmem)
  | @ranHook u ticket' aggregateName aggregateId _ _ eq =>
      subst eq
      have hold : .acquireCalled ticket key ∈
          (Locker.release ticket' aggregateName aggregateId s).2.history := by
        simpa [World.hookEnded, World.note, World.setFrame] using hmem
      exact .inl (Locker.mem_release_called hold)

theorem LockDone.grows {task : Task J} {uow : Option UowRef} {h h' : List (Obs J)}
    (hdone : LockDone wiring task uow h) (hsub : h ⊆ h')
    (hcalled : ∀ key, .acquireCalled ⟨task.dispatch, uow⟩ key ∈ h' →
      .acquireCalled ⟨task.dispatch, uow⟩ key ∈ h) : LockDone wiring task uow h' := by
  intro key hmem
  obtain ⟨hkey, hlock⟩ := hdone key (hcalled key hmem)
  refine ⟨hkey, hlock.imp (fun h => hsub h) fun ⟨hgranted, hback⟩ =>
    ⟨hgranted.imp (fun h => hsub h) fun h => hsub h, ?_⟩⟩
  cases uow with
  | none => exact hback.imp (fun h => hsub h) id
  | some u => exact hsub hback

/-! ## Release hooks are not lost -/

theorem Locker.released_mem (ticket : Ticket) (aggregateName : String) (aggregateId : ID) :
    .released ticket (compositeKey aggregateName aggregateId) ∈
      (release ticket aggregateName aggregateId s).2.history := by
  unfold release
  dsimp only
  split
  · exact List.mem_cons_self
  · split
    · exact List.mem_cons_of_mem _ List.mem_cons_self
    · exact List.mem_cons_self

/-- No release waits for a commit. -/
def SnapshotsOnly (u : UowRef) (w : World J) : Prop :=
  ∀ hook ∈ (getOrCreate u w).onCommitted, hook.isRelease = false

theorem HookChange.snapshotsOnly (h : HookChange wiring u s t) (hs : SnapshotsOnly u s) :
    SnapshotsOnly u t := by
  unfold SnapshotsOnly at hs ⊢
  cases h with
  | same hooks =>
      rw [getOrCreate] at hs ⊢
      rwa [hooks]
  | registeredSnapshot _ _ _ eq =>
      subst eq
      intro hook hmem
      simp only [getOrCreate, onUowCommitted, World.setHooks, World.note, bind, Segment.modify,
        note, Function.update_self, Option.getD_some] at hmem
      rcases List.mem_append.mp hmem with hmem | hmem
      · exact hs hook hmem
      · rw [List.mem_singleton.mp hmem]
        rfl
  | registeredRelease _ _ _ eq =>
      subst eq
      simpa [getOrCreate, onUowSettled, World.setHooks, World.note, bind, Segment.modify,
        note] using hs
  | claimed _ _ eq =>
      subst eq
      exact hs
  | took _ _ _ _ eq =>
      subst eq
      simp [getOrCreate, takeHooks, World.setFrame, World.setHooks, World.note]
  | @ranSnapshotHook _ _ _ saved _ eq =>
      subst eq
      cases saved <;> exact hs
  | @ranReleaseHook ticket aggregateName aggregateId _ _ eq =>
      subst eq
      obtain ⟨_, _, heq⟩ := Locker.release_eq ticket aggregateName aggregateId s
      rw [heq]
      exact hs

theorem mem_heldHooks {hook : Hook J} : hook ∈ heldHooks u s ↔
    hook ∈ (getOrCreate u s).onCommitted ∨ hook ∈ (getOrCreate u s).onSettled ∨
      hook ∈ (s.frames u).running := by
  rw [heldHooks, List.mem_append, List.mem_append, or_assoc]

/-- A release hook stays until it has run. -/
theorem HookChange.release_kept (h : HookChange wiring u s t) (hs : SnapshotsOnly u s)
    (hturns : HooksInTurn u s) {ticket : Ticket} {aggregateName : String} {aggregateId : ID}
    (hmem : .release ticket aggregateName aggregateId ∈ heldHooks u s) :
    .release ticket aggregateName aggregateId ∈ heldHooks u t ∨
      .released ticket (compositeKey aggregateName aggregateId) ∈ t.history := by
  cases h with
  | same hooks running =>
      left
      rw [heldHooks, getOrCreate] at hmem ⊢
      rwa [hooks, running]
  | registeredSnapshot _ _ _ eq =>
      subst eq
      left
      simp only [mem_heldHooks, getOrCreate] at hmem
      simp only [mem_heldHooks, getOrCreate, onUowCommitted, World.setHooks, World.note, bind,
        Segment.modify, note, Function.update_self, Option.getD_some, List.mem_append]
      exact hmem.imp .inl id
  | registeredRelease _ _ _ eq =>
      subst eq
      left
      simp only [mem_heldHooks, getOrCreate] at hmem
      simp only [mem_heldHooks, getOrCreate, onUowSettled, World.setHooks, World.note, bind,
        Segment.modify, note, Function.update_self, Option.getD_some, List.mem_append]
      exact hmem.imp id (Or.imp .inl id)
  | claimed _ _ eq =>
      subst eq
      left
      simpa [mem_heldHooks, getOrCreate, World.setFrame] using hmem
  | took _ _ _ first eq =>
      subst eq
      left
      rcases mem_heldHooks.mp hmem with hmem | hmem | hmem
      · cases hs _ hmem
      · simp [mem_heldHooks, takeHooks, World.setFrame, World.note, hmem]
      · rw [(hturns.before first).1] at hmem
        cases hmem
  | @ranSnapshotHook _ _ _ saved running eq =>
      subst eq
      left
      rcases mem_heldHooks.mp hmem with hmem | hmem | hmem
      · cases saved <;> exact mem_heldHooks.mpr (.inl hmem)
      · cases saved <;> exact mem_heldHooks.mpr (.inr (.inl hmem))
      · rw [head_tail running] at hmem
        have htail := (List.mem_cons.mp hmem).resolve_left (by simp)
        cases saved <;> simp [mem_heldHooks, World.hookEnded, World.savedSnapshot, World.note,
          World.setFrame, htail]
  | @ranReleaseHook ticket' aggregateName' aggregateId' _ running eq =>
      subst eq
      obtain ⟨_, _, heq⟩ := Locker.release_eq ticket' aggregateName' aggregateId' s
      rcases mem_heldHooks.mp hmem with hmem | hmem | hmem
      · left
        rw [heq]
        exact mem_heldHooks.mpr (.inl hmem)
      · left
        rw [heq]
        exact mem_heldHooks.mpr (.inr (.inl hmem))
      · rw [head_tail running] at hmem
        rcases List.mem_cons.mp hmem with hhead | htail
        · right
          obtain ⟨rfl, rfl, rfl⟩ := Hook.release.inj hhead
          exact List.mem_cons_of_mem _ (Locker.released_mem ..)
        · left
          rw [heq]
          simp [mem_heldHooks, World.hookEnded, World.note, World.setFrame, htail]

/-! ## Releases that come too late -/

/-- The hook waits for its unit of work to settle. -/
def Awaiting (u : UowRef) (hook : Hook J) (w : World J) : Prop :=
  hook ∈ (getOrCreate u w).onCommitted ∨ hook ∈ (getOrCreate u w).onSettled

variable (u) in
/-- The waiting hooks are taken all at once; otherwise they are joined by those that are
registered. -/
inductive AwaitingChange (s t : World J) : Prop
  | taken (awaiting : ∀ hook, ¬ Awaiting u hook t)
      (first : ∀ committed within hooks, .hooksTaken u committed within hooks ∉ s.history)
      {o : Obs J} (history : t.history = o :: s.history)
  | more (new : List (Obs J)) (history : t.history = new ++ s.history)
      (spares : ∀ committed within hooks, .hooksTaken u committed within hooks ∉ new)
      (awaiting : ∀ hook, Awaiting u hook t ↔
        Awaiting u hook s ∨ ∃ d, .registered u d hook ∈ new)

theorem HookChange.awaiting (h : HookChange wiring u s t) : AwaitingChange u s t := by
  cases h with
  | same hooks _ _ spares =>
      obtain ⟨new, hnew, hspares⟩ := spares
      have hnone : ∀ d hook, .registered u d hook ∉ new := fun d hook hmem => by
        simpa [Obs.hooks] using hspares _ hmem
      refine .more new hnew (fun _ _ _ hmem => ?_) fun hook => ?_
      · simpa [Obs.hooks] using hspares _ hmem
      · simp only [Awaiting, getOrCreate, hooks, hnone, exists_false, or_false]
  | @registeredSnapshot task pending _ _ _ eq =>
      subst eq
      refine .more [_] rfl (by simp) fun hook => ?_
      simp only [Awaiting, getOrCreate, onUowCommitted, World.setHooks, World.note, bind,
        Segment.modify, note, Function.update_self, Option.getD_some, List.mem_append,
        List.mem_singleton, Obs.registered.injEq, true_and, exists_eq_left]
      rw [or_right_comm]
  | @registeredRelease task _ _ _ eq =>
      subst eq
      refine .more [_] rfl (by simp) fun hook => ?_
      simp only [Awaiting, getOrCreate, onUowSettled, World.setHooks, World.note, bind,
        Segment.modify, note, Function.update_self, Option.getD_some, List.mem_append,
        List.mem_singleton, Obs.registered.injEq, true_and, exists_eq_left]
      rw [or_assoc]
  | claimed _ _ eq =>
      subst eq
      exact .more [] rfl (by simp) fun hook => by simp [Awaiting, getOrCreate, World.setFrame]
  | took _ _ _ first eq =>
      subst eq
      refine .taken (fun hook hmem => ?_) first rfl
      simp [Awaiting, getOrCreate, takeHooks, World.setFrame, World.setHooks,
        World.note] at hmem
  | @ranSnapshotHook aggregateName aggregateId snapshot saved _ eq =>
      subst eq
      refine .more [.hookRan u (.saveSnapshot aggregateName aggregateId snapshot) none] ?_
        (by simp) fun hook => ?_
      · cases saved <;> rfl
      · cases saved <;> simp [Awaiting, getOrCreate, World.hookEnded, World.savedSnapshot,
          World.note, World.setFrame]
  | @ranReleaseHook ticket aggregateName aggregateId _ _ eq =>
      subst eq
      obtain ⟨new, hnew, hobs⟩ := Locker.release_history ticket aggregateName aggregateId s
      obtain ⟨_, _, heq⟩ := Locker.release_eq ticket aggregateName aggregateId s
      have hnone : ∀ o ∈ new, o.lockKey? ≠ none := by
        intro o ho
        rcases hobs o ho with ⟨_, rfl⟩ | ⟨_, _, rfl⟩ <;> simp [Obs.lockKey?]
      refine .more (.hookRan u (.release ticket aggregateName aggregateId) none :: new)
        (congrArg _ hnew) (fun _ _ _ hmem => ?_) fun hook => ?_
      · rcases List.mem_cons.mp hmem with hmem | hmem
        · cases hmem
        · exact hnone _ hmem rfl
      · rw [heq]
        refine ⟨.inl, fun hmem => hmem.resolve_right ?_⟩
        rintro ⟨d, hmem⟩
        rcases List.mem_cons.mp hmem with hmem | hmem
        · cases hmem
        · exact hnone _ hmem rfl

/-- Of two ways to split a list, the one at an element that is not in front of the other. -/
theorem append_split {α : Type} {new old added rest : List α} {a : α}
    (h : added ++ rest = new ++ a :: old) (ha : a ∉ added) :
    ∃ before, new = added ++ before ∧ rest = before ++ a :: old := by
  obtain hbefore | ⟨after, hadded, hafter⟩ := List.append_eq_append_iff.mp h
  · exact hbefore
  · cases after with
    | nil => exact ⟨[], by simpa using hadded.symm, hafter.symm⟩
    | cons b tail =>
        obtain ⟨rfl, -⟩ := List.cons.inj hafter
        exact absurd (by simp [hadded]) ha

/-! ## The invariant -/

variable (wiring) in
structure Returns (w : World J) : Prop where
  asked : ∀ ticket key, .acquireCalled ticket key ∈ w.history → ∃ task,
    task.dispatch = ticket.dispatch ∧ .started task ticket.uow ∈ w.history ∧ key = task.key
  done : ∀ d e, .settled d e ∈ w.history → ∃ task uow, task.dispatch = d ∧
    .started task uow ∈ w.history ∧ LockDone wiring task uow w.history
  plain : ∀ u, SnapshotsOnly u w
  back : ∀ task u, ReleaseRegistered task u w.history →
    task.releaseHook u ∈ heldHooks u w ∨ .released ⟨task.dispatch, some u⟩ task.key ∈ w.history
  later : ∀ u new old committed within hooks,
    w.history = new ++ .hooksTaken u committed within hooks :: old →
    ∀ hook, Awaiting u hook w → ∃ d, .registered u d hook ∈ new
  accepted : wiring.releaseMayReject = false → ∀ u hook e, .hookRan u hook (some e) ∉ w.history

theorem returns_empty : Returns wiring ({} : World J) where
  asked := by simp
  done := by simp
  plain u hook hmem := by simp [getOrCreate] at hmem
  back task u h := by simp [ReleaseRegistered] at h
  later u new old committed within hooks h := by simp at h
  accepted := by simp

namespace Returns

variable [JsValue J]

theorem step_asked (hs : Returns wiring s) (h : Step wiring x s t) {ticket : Ticket}
    {key : String} (hmem : .acquireCalled ticket key ∈ t.history) : ∃ task,
      task.dispatch = ticket.dispatch ∧ .started task ticket.uow ∈ t.history ∧
        key = task.key := by
  have hsub : s.history ⊆ t.history := h.adds.grows.subset
  rcases h.locks.called hmem with hold | ⟨task, uow, hstarted, rfl, hkey, -⟩
  · obtain ⟨task, hd, hstarted, hkey⟩ := hs.asked _ _ hold
    exact ⟨task, hd, hsub hstarted, hkey⟩
  · exact ⟨task, rfl, hsub hstarted, hkey⟩

theorem step_done (hs : Returns wiring s) (h : Step wiring x s t) {d : Origin}
    {e : Option Err} (hmem : .settled d e ∈ t.history) : ∃ task uow, task.dispatch = d ∧
      .started task uow ∈ t.history ∧ LockDone wiring task uow t.history := by
  have hsub : s.history ⊆ t.history := h.adds.grows.subset
  rcases h.explained hmem with hold | ⟨⟨-, -, task, uow, hd, hstarted, hdone, -⟩, rfl⟩
  · obtain ⟨task, uow, rfl, hstarted, hdone⟩ := hs.done _ _ hold
    refine ⟨task, uow, rfl, hsub hstarted, hdone.grows hsub fun key hcalled => ?_⟩
    rcases h.locks.called hcalled with hcalled | ⟨task', uow', -, hticket, -, hunsettled⟩
    · exact hcalled
    · have hd : task.dispatch = task'.dispatch := congrArg Ticket.dispatch hticket
      rw [hd] at hold
      exact absurd hold (hunsettled e)
  · exact ⟨task, uow, hd, hsub hstarted, hdone.grows hsub fun key hcalled => by
      simpa [World.note] using hcalled⟩

theorem step_back (hs : Returns wiring s) (hturns : HooksInTurn u s) (h : Step wiring x s t)
    {task : Task J} (hregistered : ReleaseRegistered task u t.history) :
    task.releaseHook u ∈ heldHooks u t ∨
      .released ⟨task.dispatch, some u⟩ task.key ∈ t.history := by
  have hsub : s.history ⊆ t.history := h.adds.grows.subset
  rcases h.explained hregistered with hold |
    ⟨_, hd, ⟨_, -, -, -, hhook, -⟩ | ⟨-, -, -, -, rfl⟩⟩
  · rcases hs.back task u hold with hheld | hreleased
    · exact (h.hooks u).release_kept (hs.plain u) hturns hheld
    · exact .inr (hsub hreleased)
  · cases hhook
  · left
    simp [mem_heldHooks, getOrCreate, onUowSettled, World.setHooks, World.note, bind,
      Segment.modify, note, Task.releaseHook]

theorem step_later (hs : Returns wiring s) (h : Step wiring x s t) {new old : List (Obs J)}
    {committed : Bool} {within : Option UowRef} {hooks : List (Hook J)}
    (heq : t.history = new ++ .hooksTaken u committed within hooks :: old) {hook : Hook J}
    (hawaiting : Awaiting u hook t) : ∃ d, .registered u d hook ∈ new := by
  cases (h.hooks u).awaiting with
  | taken awaiting => exact absurd hawaiting (awaiting hook)
  | more added history spares awaiting =>
      -- the hooks were taken before this step
      rw [history] at heq
      obtain ⟨before, rfl, hold⟩ := append_split heq (spares committed within hooks)
      rcases (awaiting hook).mp hawaiting with hwaited | ⟨d, hregistered⟩
      · obtain ⟨d, hregistered⟩ := hs.later _ _ _ _ _ _ hold hook hwaited
        exact ⟨d, List.mem_append_right _ hregistered⟩
      · exact ⟨d, List.mem_append_left _ hregistered⟩

theorem step_accepted (hs : Returns wiring s) (hlocker : wiring.releaseMayReject = false)
    (h : Step wiring x s t) {hook : Hook J} {e : Err} :
    .hookRan u hook (some e) ∉ t.history := by
  intro hmem
  rcases h.explained hmem with hold | ⟨⟨-, hmay, -⟩, -⟩
  · exact hs.accepted hlocker _ _ _ hold
  · rw [hlocker] at hmay
    cases hmay

theorem step (hs : Returns wiring s) (hturns : ∀ u, HooksInTurn u s) (h : Step wiring x s t) :
    Returns wiring t where
  asked _ _ hmem := hs.step_asked h hmem
  done _ _ hmem := hs.step_done h hmem
  plain u := (h.hooks u).snapshotsOnly (hs.plain u)
  back _ u hregistered := hs.step_back (hturns u) h hregistered
  later _ _ _ _ _ _ heq _ hawaiting := hs.step_later h heq hawaiting
  accepted hlocker _ _ _ := hs.step_accepted hlocker h

omit [JsValue J] in
/-- Why a lock is held. -/
theorem holder (hs : Returns wiring s) (hlocked : Locked s)
    (hlocker : wiring.releaseMayReject = false) {key : String} {ticket : Ticket}
    (hholder : (s.locks key).holder = some ticket) : ∃ task,
      task.dispatch = ticket.dispatch ∧ .started task ticket.uow ∈ s.history ∧ key = task.key ∧
      ((∀ e, .settled task.dispatch e ∉ s.history) ∨
        ∃ u, ticket.uow = some u ∧ task.releaseHook u ∈ heldHooks u s) := by
  obtain ⟨hacquired, hreleased⟩ := (hlocked.locks key).holder ticket hholder
  have hcalled := (hlocked.locks key).called ticket hacquired
  obtain ⟨task, hd, hstarted, rfl⟩ := hs.asked _ _ hcalled
  refine ⟨task, hd, hstarted, rfl, ?_⟩
  by_cases hunsettled : ∀ e, .settled task.dispatch e ∉ s.history
  · exact .inl hunsettled
  · push Not at hunsettled
    obtain ⟨e, hsettled⟩ := hunsettled
    obtain ⟨task', uow', hd', hstarted', hdone⟩ := hs.done _ _ hsettled
    obtain ⟨rfl, rfl⟩ := hlocked.tasks _ _ _ _ hstarted hstarted' hd'.symm
    obtain ⟨d, uow⟩ := ticket
    obtain rfl : task.dispatch = d := hd
    obtain ⟨-, htimedOut | ⟨-, hback⟩⟩ := hdone _ hcalled
    · exact absurd hacquired ((hlocked.locks _).timedOut _ htimedOut).2
    · cases uow with
      | none =>
          rcases hback with hback | hmay
          · exact absurd hback hreleased
          · rw [hlocker] at hmay
            cases hmay
      | some u =>
          rcases hs.back task u hback with hheld | hback
          · exact .inr ⟨u, rfl, hheld⟩
          · exact absurd hback hreleased

omit [JsValue J] in
/-- Once the loop over the hooks has ended, only late hooks are left. -/
theorem late (hs : Returns wiring s) (hturns : HooksInTurn u s)
    (haccepted : ∀ hook e, .hookRan u hook (some e) ∉ s.history) (hdrained : Drained u s.history)
    {hook : Hook J} (hheld : hook ∈ heldHooks u s) :
    ∃ new old committed within hooks d,
      s.history = new ++ .hooksTaken u committed within hooks :: old ∧
        .registered u d hook ∈ new := by
  obtain ⟨committed, within, hooks, htaken, hran | ⟨hook', e, hrejected⟩⟩ := hdrained
  · have hall := hturns.turns _ _ _ htaken
    have hidle : (s.frames u).running = [] := by
      have hlength := congrArg List.length hall
      rw [List.length_append] at hlength
      exact List.eq_nil_of_length_eq_zero (by omega)
    obtain ⟨new, old, hhistory⟩ := List.append_of_mem htaken
    have hawaiting : Awaiting u hook s := by
      rcases mem_heldHooks.mp hheld with hheld | hheld | hheld
      · exact .inl hheld
      · exact .inr hheld
      · rw [hidle] at hheld
        cases hheld
    obtain ⟨d, hregistered⟩ := hs.later _ _ _ _ _ _ hhistory hook hawaiting
    exact ⟨new, old, committed, within, hooks, d, hhistory, hregistered⟩
  · exact absurd hrejected (haccepted _ _)

end Returns

/-! ## Runs -/

section Runs

variable [JsValue J] {C : World J → World J → Prop} {workload : Workload J} {q : Process J Infra}

theorem returns_of_run (hrun : Pool.Run C (boot wiring workload) q) :
    Locked q.state ∧ (∀ u, HooksInTurn u q.state) ∧ Returns wiring q.state := by
  have hall : (∀ u, Orderly u q.state.history) ∧ Locked q.state ∧
      (∀ u, HooksInTurn u q.state) ∧ Returns wiring q.state := by
    apply steps_induction wiring (I := fun w => (∀ u, Orderly u w.history) ∧ Locked w ∧
      (∀ u, HooksInTurn u w) ∧ Returns wiring w) hrun
    · exact ⟨fun _ => trivial, locked_empty, fun _ => hooksInTurn_empty, returns_empty⟩
    · rintro s t x hinv _ h ⟨horderly, hlocked, hturns, hs⟩
      exact ⟨fun u => (horderly u).step hinv (hturns u) h, hlocked.step hinv horderly hturns h,
        fun u => (hturns u).step h, hs.step hturns h⟩
  exact hall.2

/-- No lock leaks, in every run over a locker whose releases do not reject: the holder of a
lock is a dispatch to the instance that has not settled, or its release is with the hooks
of the unit of work that it joined; and once the owner of a unit of work has settled, the
hooks that are left were registered after the others had been taken, by a dispatch that the
owner did not wait for. -/
theorem locks_returned (hlocker : wiring.releaseMayReject = false)
    (hrun : Pool.Run C (boot wiring workload) q) :
    (∀ key ticket, (q.state.locks key).holder = some ticket → ∃ task,
      task.dispatch = ticket.dispatch ∧ .started task ticket.uow ∈ q.state.history ∧
      key = task.key ∧ ((∀ e, .settled task.dispatch e ∉ q.state.history) ∨
        ∃ u, ticket.uow = some u ∧ task.releaseHook u ∈ heldHooks u q.state)) ∧
    ∀ u, u.implicit = false → (q.state.uows u).created = true →
      (q.threads u.owner = .pure () ∨ ∃ e, q.threads u.owner = .throw e) →
      ∀ hook ∈ heldHooks u q.state, ∃ new old committed within hooks d,
        q.state.history = new ++ .hooksTaken u committed within hooks :: old ∧
          .registered u d hook ∈ new := by
  obtain ⟨hlocked, hturns, hs⟩ := returns_of_run hrun
  refine ⟨fun key ticket hholder => hs.holder hlocked hlocker hholder, ?_⟩
  intro u hu hcreated hended hook hheld
  obtain ⟨hresolved, hrejected⟩ := reported_of_run hrun hu hcreated
  refine hs.late (hturns u) (hs.accepted hlocker u) ?_ hheld
  rcases hended with hended | ⟨e, hended⟩
  · exact (hresolved hended).2
  · exact (hrejected e hended).2

end Runs

def Obs.settlement? : Obs J → Option (Origin × Option Err)
  | .settled d e => some (d, e)
  | _ => none

theorem Obs.settlement?_eq_some {o : Obs J} {d : Origin} {e : Option Err} :
    o.settlement? = some (d, e) ↔ o = .settled d e := by
  cases o <;> simp [Obs.settlement?]

/-- After its first dispatch the scope keeps the lock, and so the hook that returns it. -/
theorem locks_returned_twoLocks :
    ∃ q, Pool.play (Sample.turns (.scope 0) 16) Sample.twoLocks = some q ∧
      .settled (.scoped 0 0) none ∈ q.state.history ∧
      ∃ task : Task Sample.Value, task.key = "Counter:a" ∧
        task.releaseHook (.scope 0) ∈ heldHooks (.scope 0) q.state := by
  have hplay : (Pool.play (Sample.turns (.scope 0) 16) Sample.twoLocks).any fun q =>
      decide ((q.state.locks "Counter:a").holder = some ⟨.scoped 0 0, some (.scope 0)⟩) &&
        q.state.history.any fun o => decide (o.settlement? = some (.scoped 0 0, none)) := by
    decide +kernel
  obtain ⟨q, hq, hfacts⟩ := (Option.any_eq_true _ _).mp hplay
  rw [Bool.and_eq_true, decide_eq_true_eq] at hfacts
  obtain ⟨hholder, hany⟩ := hfacts
  have hsettled : .settled (.scoped 0 0) none ∈ q.state.history := by
    obtain ⟨o, ho, hsettlement⟩ := List.any_eq_true.mp hany
    exact Obs.settlement?_eq_some.mp (of_decide_eq_true hsettlement) ▸ ho
  obtain ⟨task, hd, -, hkey, hunsettled | ⟨u, hjoined, hheld⟩⟩ := (locks_returned rfl
    (Pool.run_of_play (C := fun _ _ => True) (fun _ _ => trivial) hq)).1 _ _ hholder
  · rw [show task.dispatch = .scoped 0 0 from hd] at hunsettled
    exact absurd hsettled (hunsettled none)
  · obtain rfl := Option.some.inj hjoined
    exact ⟨q, hq, hsettled, task, hkey.symm, hheld⟩

end Noddde
