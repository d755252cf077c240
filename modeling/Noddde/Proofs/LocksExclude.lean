import Noddde.Proofs.LockHolders
/-!
# Pessimistic locks exclude conflicts

With a lock strategy for every aggregate, the lifecycle of a command loads its instance
under the lock of the instance, and the lock is given back only when the unit of work of
the command has settled.  So nobody else loads the instance meanwhile.
-/

namespace Noddde

variable {J Infra : Type} {wiring : Wiring J Infra} {x : Subject} {u : UowRef} {s t : World J}

/-- Every aggregate has a pessimistic strategy. -/
def Wiring.Pessimistic (wiring : Wiring J Infra) : Prop :=
  ∀ aggregateName, ∃ timeoutMs,
    wiring.concurrency.resolve aggregateName = .pessimistic timeoutMs

theorem UowChange.created_mono (h : UowChange wiring u s t) (hs : (s.uows u).created = true) :
    (t.uows u).created = true := by
  cases h with
  | same uow => rw [uow, hs]
  | created _ uow => rw [uow]
  | contributed _ eq => rw [eq, World.uows_contributed, Function.update_self]; exact hs
  | enlistedSaga _ _ eq => simpa [eq, World.enlistAll] using hs
  | committing _ _ _ eq => rw [eq, World.uow_committing]; exact hs
  | ran _ stores eq => rw [eq, stores.uow_ran]; exact hs
  | refused _ refuses eq => rw [eq, refuses.uow_refused]; exact hs
  | committed _ eq => rw [eq, World.uow_committed]; exact hs
  | commitRejected _ _ eq => rw [eq, World.uow_commitRejected]; exact hs
  | rolledBack _ _ eq => rw [eq, World.uow_rolledBack]; exact hs

/-- What is loaded now is loaded under the lock, and at the version of the instance. -/
theorem Step.loadedBy [JsValue J] (h : Step wiring x s t) (hs : Versioned wiring s)
    {task : Task J} {loaded : Loaded J} (hloaded : LoadedBy task u loaded t.history) :
    LoadedBy task u loaded s.history ∨ Loads wiring task u s ∧
      loaded.version = s.version (loaded.isEventSourced, task.key) ∧ ∃ o, t = s.note o := by
  rcases hloaded with ⟨stream, hmem⟩ | hmem
  · rcases h.explained hmem with hold | ⟨hjustified, heq⟩
    · exact .inl (.inl ⟨stream, hold⟩)
    · exact .inr ⟨hjustified.1, (hjustified.loadedEvents_version fun snapshot =>
        hs.noted task u snapshot).2, _, heq⟩
  · rcases h.explained hmem with hold | ⟨hjustified, heq⟩
    · exact .inl (.inr hold)
    · exact .inr ⟨hjustified.1, hjustified.loadedState_version.2, _, heq⟩

/-- The lifecycle of `task` on `u` reads its instance, or the snapshot of it. -/
def Obs.reads (task : Task J) (u : UowRef) : Obs J → Prop
  | .loadedSnapshot task' v _ | .loadedEvents task' v _ _ | .loadedState task' v _ =>
      task' = task ∧ v = u
  | _ => False

def Read (task : Task J) (u : UowRef) (h : List (Obs J)) : Prop := ∃ o ∈ h, o.reads task u

theorem LoadedBy.read {task : Task J} {loaded : Loaded J} {h : List (Obs J)}
    (hloaded : LoadedBy task u loaded h) : Read task u h := by
  rcases hloaded with ⟨stream, hmem⟩ | hmem
  · exact ⟨_, hmem, rfl, rfl⟩
  · exact ⟨_, hmem, rfl, rfl⟩

/-- What is read now is read under the lock. -/
theorem Explained.loads [JsValue J] {task : Task J} {o : Obs J} (h : Explained wiring s t o)
    (hreads : o.reads task u) : Loads wiring task u s := by
  cases o with
  | loadedSnapshot | loadedEvents | loadedState =>
      obtain ⟨rfl, rfl⟩ := hreads
      exact h.1.1
  | _ => exact hreads.elim

/-! ## Loads under a lock -/

/-- `task` runs on `u` and has been granted the lock of its instance. -/
structure UnderLock (task : Task J) (u : UowRef) (w : World J) : Prop where
  begun : Begun task u w.history
  granted : Granted ⟨task.dispatch, u.joined⟩ task.key w.history
  created : u.implicit = true → (w.uows u).created = true

structure Guards (w : World J) : Prop where
  ended : ∀ d key, .released ⟨d, none⟩ key ∈ w.history → Over d w ∧
    ∃ task, task.dispatch = d ∧ .started task none ∈ w.history ∧ key = task.key
  reads : ∀ task u, Read task u w.history → UnderLock task u w

theorem guards_empty : Guards ({} : World J) where
  ended := by simp
  reads task u h := by simp [Read] at h

namespace Guards

variable [JsValue J]

theorem step_ended (hs : Guards s) (hlocked : Locked s) (hinv : Inv wiring s) (hpess : wiring.Pessimistic)
    (h : Step wiring x s t) {d : Origin} {key : String}
    (hmem : .released ⟨d, none⟩ key ∈ t.history) : Over d t ∧
      ∃ task, task.dispatch = d ∧ .started task none ∈ t.history ∧ key = task.key := by
  have hsub : s.history ⊆ t.history := h.adds.grows.subset
  rcases h.locks.givenBack hmem with hold | ⟨task, hstarted, hover, hticket, hkey, huows⟩ |
    ⟨_, _, _, hjoined, -⟩
  · obtain ⟨hover, task, rfl, hstarted, rfl⟩ := hs.ended _ _ hold
    refine ⟨fun k => (h.uow _).ended (hinv.units _) ?_ (hover k),
      task, rfl, hsub hstarted, rfl⟩
    -- another attempt would need the lock
    rintro ⟨-, task', hd, hstarted', hguarded⟩
    obtain ⟨rfl, -⟩ := hlocked.tasks _ _ _ _ hstarted' hstarted hd
    obtain ⟨timeoutMs, hstrategy⟩ := hpess task'.aggregateName
    exact (hguarded timeoutMs hstrategy).2.2 hold
  · obtain rfl : d = task.dispatch := congrArg Ticket.dispatch hticket
    refine ⟨fun k => ?_, task, rfl, hsub hstarted, hkey⟩
    rw [huows]
    exact hover k
  · cases hjoined

theorem step_reads (hs : Guards s) (hpess : wiring.Pessimistic) (h : Step wiring x s t)
    {task : Task J} (hread : Read task u t.history) : UnderLock task u t := by
  have hsub : s.history ⊆ t.history := h.adds.grows.subset
  have hold : UnderLock task u s := by
    obtain ⟨o, ho, hreads⟩ := hread
    rcases h.explained ho with hold | hexplained
    · exact hs.reads task u ⟨o, hold, hreads⟩
    · have hloads := hexplained.loads hreads
      obtain ⟨timeoutMs, hstrategy⟩ := hpess task.aggregateName
      exact ⟨hloads.begun, (hloads.guarded timeoutMs hstrategy).1, hloads.created⟩
  obtain ⟨⟨hstarted, hattempt⟩, hgranted, hcreated⟩ := hold
  exact ⟨⟨hsub hstarted, hattempt⟩, hgranted.imp (fun h => hsub h) (fun h => hsub h),
    fun himplicit => (h.uow u).created_mono (hcreated himplicit)⟩

theorem step (hs : Guards s) (hlocked : Locked s) (hinv : Inv wiring s)
    (hpess : wiring.Pessimistic) (h : Step wiring x s t) : Guards t where
  ended _ _ hmem := hs.step_ended hlocked hinv hpess h hmem
  reads _ _ hread := hs.step_reads hpess h hread

omit [JsValue J] in
/-- Who runs under a lock holds it until its unit of work settles. -/
theorem holder (hs : Guards s) (hlocked : Locked s) {task : Task J} (hlock : UnderLock task u s)
    (hunsettled : (s.uows u).outcome = none) :
    (s.locks task.key).holder = some ⟨task.dispatch, u.joined⟩ := by
  obtain ⟨⟨-, hattempt⟩, hgranted, hcreated⟩ := hlock
  refine (hlocked.locks task.key).owner _ (hgranted.elim id ((hlocked.locks task.key).granted _)) ?_
  intro hreleased
  cases himplicit : u.implicit with
  | true =>
      rw [UowRef.joined, if_pos himplicit] at hreleased
      obtain ⟨k, rfl⟩ := hattempt himplicit
      exact (hs.ended _ _ hreleased).1 k (hcreated himplicit) hunsettled
  | false =>
      rw [UowRef.joined, himplicit, if_neg Bool.false_ne_true] at hreleased
      exact (hlocked.given _ _ _ hreleased).1 hunsettled

omit [JsValue J] in
/-- Two units of work that have not settled do not both run under one lock. -/
theorem unique (hs : Guards s) (hlocked : Locked s) (hinv : Inv wiring s) {task task' : Task J}
    {v : UowRef} (hlock : UnderLock task u s) (hlock' : UnderLock task' v s)
    (hkey : task.key = task'.key) (hu : (s.uows u).outcome = none)
    (hv : (s.uows v).outcome = none) : u = v ∧ task = task' := by
  have hholder := hs.holder hlocked hlock hu
  rw [hkey, hs.holder hlocked hlock' hv] at hholder
  obtain ⟨hd, hjoined⟩ := Ticket.mk.inj (Option.some.inj hholder)
  obtain ⟨⟨hstarted, hattempt⟩, -, hcreated⟩ := hlock
  obtain ⟨⟨hstarted', hattempt'⟩, -, hcreated'⟩ := hlock'
  refine ⟨?_, (hlocked.tasks _ _ _ _ hstarted hstarted' hd.symm).1⟩
  cases himplicit : u.implicit with
  | true =>
      have himplicit' : v.implicit = true := by
        by_contra hexplicit
        rw [UowRef.joined, UowRef.joined, if_neg hexplicit, if_pos himplicit] at hjoined
        cases hjoined
      obtain ⟨k, rfl⟩ := hattempt himplicit
      obtain ⟨k', rfl⟩ := hattempt' himplicit'
      rw [hd] at hv hcreated'
      -- of two attempts, the earlier one has failed
      rcases Nat.lt_trichotomy k k' with hlt | rfl | hlt
      · rw [hinv.order _ _ _ hlt (hcreated' rfl)] at hu
        cases hu
      · rw [hd]
      · rw [hinv.order _ _ _ hlt (hcreated rfl)] at hv
        cases hv
  | false =>
      rw [UowRef.joined, UowRef.joined, himplicit, if_neg Bool.false_ne_true] at hjoined
      split at hjoined
      · cases hjoined
      · exact (Option.some.inj hjoined).symm

omit [JsValue J] in
/-- Whoever has loaded an instance holds its lock until its unit of work settles. -/
theorem held (hs : Guards s) (hlocked : Locked s) {task : Task J} {loaded : Loaded J}
    (hloaded : LoadedBy task u loaded s.history) (hunsettled : (s.uows u).outcome = none) :
    (s.locks task.key).holder = some ⟨task.dispatch, u.joined⟩ :=
  hs.holder hlocked (hs.reads task u hloaded.read) hunsettled

omit [JsValue J] in
/-- No two units of work that have not settled have loaded one instance. -/
theorem exclusive (hs : Guards s) (hlocked : Locked s) (hinv : Inv wiring s) {task task' : Task J}
    {v : UowRef} {loaded loaded' : Loaded J} (hloaded : LoadedBy task u loaded s.history)
    (hloaded' : LoadedBy task' v loaded' s.history) (hkey : task.key = task'.key)
    (hu : (s.uows u).outcome = none) (hv : (s.uows v).outcome = none) : u = v ∧ task = task' :=
  hs.unique hlocked hinv (hs.reads _ _ hloaded.read) (hs.reads _ _ hloaded'.read) hkey hu hv

end Guards

end Noddde
