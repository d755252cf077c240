import Noddde.Proofs.CompletionProtocol
/-!
# Locks

A lock has at most one holder, who was granted it and has not given it back; whoever
asked for it waits in the queue, has given up or was granted it.
-/

namespace Noddde

variable {J Infra : Type}

/-! ## One lock -/

def Obs.lockKey? : Obs J → Option String
  | .acquireCalled _ key | .acquired _ key | .lockGranted _ key | .lockTimedOut _ key
  | .released _ key => some key
  | _ => none

structure LockOk (key : String) (h : List (Obs J)) (entry : LockEntry) : Prop where
  free : entry.locked = false → entry.holder = none ∧ entry.queue = []
  held : entry.locked = true → entry.holder ≠ none
  holder : ∀ ticket, entry.holder = some ticket →
    .acquired ticket key ∈ h ∧ .released ticket key ∉ h
  owner : ∀ ticket, .acquired ticket key ∈ h → .released ticket key ∉ h →
    entry.holder = some ticket
  waiting : ∀ ticket ∈ entry.queue, .acquireCalled ticket key ∈ h ∧
    .acquired ticket key ∉ h ∧ .lockTimedOut ticket key ∉ h
  nodup : entry.queue.Nodup
  called : ∀ ticket, .acquired ticket key ∈ h → .acquireCalled ticket key ∈ h
  released : ∀ ticket, .released ticket key ∈ h → .acquired ticket key ∈ h
  granted : ∀ ticket, .lockGranted ticket key ∈ h → .acquired ticket key ∈ h
  timedOut : ∀ ticket, .lockTimedOut ticket key ∈ h →
    .acquireCalled ticket key ∈ h ∧ .acquired ticket key ∉ h
  accounted : ∀ ticket, .acquireCalled ticket key ∈ h →
    ticket ∈ entry.queue ∨ .lockTimedOut ticket key ∈ h ∨ .acquired ticket key ∈ h

namespace LockOk

variable {key : String} {h : List (Obs J)} {entry : LockEntry} {ticket next : Ticket}

theorem empty (key : String) : LockOk key ([] : List (Obs J)) {} where
  free _ := ⟨rfl, rfl⟩
  held := nofun
  holder := nofun
  owner := by simp
  waiting := by simp
  nodup := List.nodup_nil
  called := by simp
  released := by simp
  granted := by simp
  timedOut := by simp
  accounted := by simp

/-- Observations about other locks change nothing. -/
theorem append (hs : LockOk key h entry) (new : List (Obs J))
    (hnew : ∀ o ∈ new, o.lockKey? ≠ some key) : LockOk key (new ++ h) entry := by
  have hmem : ∀ {o : Obs J}, o.lockKey? = some key → (o ∈ new ++ h ↔ o ∈ h) := by
    intro o ho
    rw [List.mem_append]
    exact ⟨fun h => h.resolve_left fun hmem => hnew o hmem ho, .inr⟩
  have hcalled ticket := hmem (o := .acquireCalled ticket key) rfl
  have hacquired ticket := hmem (o := .acquired ticket key) rfl
  have hgranted ticket := hmem (o := .lockGranted ticket key) rfl
  have htimedOut ticket := hmem (o := .lockTimedOut ticket key) rfl
  have hreleased ticket := hmem (o := .released ticket key) rfl
  constructor
  · exact hs.free
  · exact hs.held
  · simpa only [hacquired, hreleased] using hs.holder
  · simpa only [hacquired, hreleased] using hs.owner
  · simpa only [hacquired, hcalled, htimedOut] using hs.waiting
  · exact hs.nodup
  · simpa only [hacquired, hcalled] using hs.called
  · simpa only [hacquired, hreleased] using hs.released
  · simpa only [hacquired, hgranted] using hs.granted
  · simpa only [hacquired, hcalled, htimedOut] using hs.timedOut
  · simpa only [hacquired, hcalled, htimedOut] using hs.accounted

/-- Nothing is known of a ticket that has not asked for the lock. -/
theorem unknown (hs : LockOk key h entry) (hfirst : .acquireCalled ticket key ∉ h) :
    .acquired ticket key ∉ h ∧ .released ticket key ∉ h ∧ .lockTimedOut ticket key ∉ h ∧
      ticket ∉ entry.queue := by
  have hacquired : .acquired ticket key ∉ h := fun hmem => hfirst (hs.called ticket hmem)
  exact ⟨hacquired, fun hmem => hacquired (hs.released ticket hmem),
    fun hmem => hfirst (hs.timedOut ticket hmem).1, fun hmem => hfirst (hs.waiting ticket hmem).1⟩

/-- The lock is free, and `ticket` takes it. -/
theorem take (hs : LockOk key h entry) (hfree : entry.locked = false)
    (hfirst : .acquireCalled ticket key ∉ h) :
    LockOk key (.acquired ticket key :: .acquireCalled ticket key :: h)
      { entry with locked := true, holder := some ticket } := by
  obtain ⟨hacquired, hreleased, htimedOut, -⟩ := hs.unknown hfirst
  obtain ⟨hholder, hqueue⟩ := hs.free hfree
  constructor
  · exact nofun
  · exact nofun
  · rintro other heq
    obtain rfl := Option.some.inj heq
    simpa using hreleased
  · intro other hmem hnot
    by_cases heq : other = ticket
    · rw [heq]
    · have howner := hs.owner other (by simpa [heq] using hmem) (by simpa using hnot)
      rw [hholder] at howner
      cases howner
  · simp [hqueue]
  · exact hs.nodup
  · intro other hmem
    by_cases heq : other = ticket
    · simp [heq]
    · simpa [heq] using hs.called other (by simpa [heq] using hmem)
  · intro other hmem
    have hold := hs.released other (by simpa using hmem)
    exact List.mem_cons_of_mem _ (List.mem_cons_of_mem _ hold)
  · intro other hmem
    have hold := hs.granted other (by simpa using hmem)
    exact List.mem_cons_of_mem _ (List.mem_cons_of_mem _ hold)
  · intro other hmem
    have hmem : .lockTimedOut other key ∈ h := by simpa using hmem
    have hne : other ≠ ticket := fun heq => htimedOut (heq ▸ hmem)
    simpa [hne] using hs.timedOut other hmem
  · intro other hmem
    by_cases heq : other = ticket
    · simp [heq]
    · simpa [heq] using hs.accounted other (by simpa [heq] using hmem)

/-- The lock is held, and `ticket` is queued. -/
theorem wait (hs : LockOk key h entry) (hlocked : entry.locked = true)
    (hfirst : .acquireCalled ticket key ∉ h) :
    LockOk key (.acquireCalled ticket key :: h)
      { entry with queue := entry.queue ++ [ticket] } := by
  obtain ⟨hacquired, -, htimedOut, hqueued⟩ := hs.unknown hfirst
  constructor
  · intro hfree
    rw [show entry.locked = false from hfree] at hlocked
    cases hlocked
  · exact hs.held
  · simpa using hs.holder
  · simpa using hs.owner
  · intro other hmem
    rcases List.mem_append.mp hmem with hmem | hmem
    · simpa using (hs.waiting other hmem).imp (fun h => .inr h) id
    · rw [List.mem_singleton.mp hmem]
      simp [hacquired, htimedOut]
  · exact hs.nodup.append (List.nodup_singleton _) (by simpa using hqueued)
  · intro other hmem
    exact List.mem_cons_of_mem _ (hs.called other (by simpa using hmem))
  · simpa using hs.released
  · simpa using hs.granted
  · intro other hmem
    simpa using (hs.timedOut other (by simpa using hmem)).imp (fun h => .inr h) id
  · intro other hmem
    by_cases heq : other = ticket
    · simp [heq]
    · have hold := hs.accounted other (by simpa [heq] using hmem)
      simpa [heq] using hold

/-- The timer of a queued ticket fires. -/
theorem timeOut (hs : LockOk key h entry) (hqueued : ticket ∈ entry.queue) :
    LockOk key (.lockTimedOut ticket key :: h)
      { entry with queue := entry.queue.erase ticket } := by
  obtain ⟨hcalled, hacquired, -⟩ := hs.waiting ticket hqueued
  constructor
  · intro hfree
    rw [(hs.free hfree).2] at hqueued
    cases hqueued
  · exact hs.held
  · simpa using hs.holder
  · simpa using hs.owner
  · intro other hmem
    obtain ⟨hne, hmem⟩ := (hs.nodup.mem_erase_iff).mp hmem
    simpa [hne] using hs.waiting other hmem
  · exact hs.nodup.erase ticket
  · simpa using hs.called
  · simpa using hs.released
  · simpa using hs.granted
  · intro other hmem
    by_cases heq : other = ticket
    · subst heq
      simpa using ⟨hcalled, hacquired⟩
    · simpa using hs.timedOut other (by simpa [heq] using hmem)
  · intro other hmem
    by_cases heq : other = ticket
    · simp [heq]
    · have hold := hs.accounted other (by simpa using hmem)
      rw [← hs.nodup.mem_erase_iff.trans (and_iff_right heq)] at hold
      simpa [heq] using hold

/-- A queued ticket learns that it holds the lock. -/
theorem grant (hs : LockOk key h entry) (hcalled : .acquireCalled ticket key ∈ h)
    (hqueued : ticket ∉ entry.queue) (htimedOut : .lockTimedOut ticket key ∉ h) :
    LockOk key (.lockGranted ticket key :: h) entry := by
  have hacquired : .acquired ticket key ∈ h :=
    ((hs.accounted ticket hcalled).resolve_left hqueued).resolve_left htimedOut
  constructor
  · exact hs.free
  · exact hs.held
  · simpa using hs.holder
  · simpa using hs.owner
  · simpa using hs.waiting
  · exact hs.nodup
  · simpa using hs.called
  · simpa using hs.released
  · intro other hmem
    by_cases heq : other = ticket
    · subst heq
      exact List.mem_cons_of_mem _ hacquired
    · exact List.mem_cons_of_mem _ (hs.granted other (by simpa [heq] using hmem))
  · simpa using hs.timedOut
  · simpa using hs.accounted

/-- The holder gives the lock back while nobody waits for it. -/
theorem giveBack (hs : LockOk key h entry) (hholder : entry.holder = some ticket)
    (hqueue : entry.queue = []) :
    LockOk key (.released ticket key :: h) { entry with locked := false, holder := none } := by
  have hacquired := (hs.holder ticket hholder).1
  constructor
  · exact fun _ => ⟨rfl, hqueue⟩
  · exact nofun
  · exact nofun
  · intro other hmem hnot
    have hold := hs.owner other (by simpa using hmem) fun h => hnot (List.mem_cons_of_mem _ h)
    rw [hholder] at hold
    obtain rfl := Option.some.inj hold
    simp at hnot
  · simp [hqueue]
  · exact hs.nodup
  · simpa using hs.called
  · intro other hmem
    by_cases heq : other = ticket
    · subst heq
      exact List.mem_cons_of_mem _ hacquired
    · exact List.mem_cons_of_mem _ (hs.released other (by simpa [heq] using hmem))
  · simpa using hs.granted
  · simpa using hs.timedOut
  · simpa using hs.accounted

/-- The holder hands the lock over to the first in the queue. -/
theorem handOver (hs : LockOk key h entry) (hholder : entry.holder = some ticket)
    {rest : List Ticket} (hqueue : entry.queue = next :: rest) :
    LockOk key (.acquired next key :: .released ticket key :: h)
      { entry with queue := rest, holder := some next } := by
  have hacquired := (hs.holder ticket hholder).1
  obtain ⟨hcalled, hnot, htimedOut⟩ := hs.waiting next (by simp [hqueue])
  have hnodup := hs.nodup
  rw [hqueue, List.nodup_cons] at hnodup
  have hreleased : .released next key ∉ h := fun hmem => hnot (hs.released next hmem)
  have hne : next ≠ ticket := fun heq => hnot (heq ▸ hacquired)
  constructor
  · intro hfree
    rw [(hs.free hfree).1] at hholder
    cases hholder
  · exact nofun
  · rintro other heq
    obtain rfl := Option.some.inj heq
    simpa [hne] using hreleased
  · intro other hmem hgone
    by_cases heq : other = next
    · rw [heq]
    · have hold := hs.owner other (by simpa [heq] using hmem) fun h => hgone (by simp [h])
      rw [hholder] at hold
      obtain rfl := Option.some.inj hold
      simp at hgone
  · intro other hmem
    have hother : other ≠ next := fun heq => hnodup.1 (heq ▸ hmem)
    simpa [hother] using hs.waiting other (by simp [hqueue, hmem])
  · exact hnodup.2
  · intro other hmem
    by_cases heq : other = next
    · subst heq
      simpa using hcalled
    · simpa using hs.called other (by simpa [heq] using hmem)
  · intro other hmem
    by_cases heq : other = ticket
    · subst heq
      simp [hacquired]
    · have hold := hs.released other (by simpa [heq] using hmem)
      simp [hold]
  · intro other hmem
    have hold := hs.granted other (by simpa using hmem)
    simp [hold]
  · intro other hmem
    have hmem : .lockTimedOut other key ∈ h := by simpa using hmem
    have hother : other ≠ next := fun heq => htimedOut (heq ▸ hmem)
    simpa [hother] using hs.timedOut other hmem
  · intro other hmem
    by_cases heq : other = next
    · simp [heq]
    · have hold := hs.accounted other (by simpa using hmem)
      rw [hqueue, List.mem_cons] at hold
      simpa [heq] using hold

end LockOk

/-! ## What a step does to the locks -/

variable {wiring : Wiring J Infra} {x : Subject} {u : UowRef} {s t : World J}

inductive LockChange (s t : World J) : Prop
  | same (locks : t.locks = s.locks)
      (spares : ∃ new, t.history = new ++ s.history ∧ ∀ o ∈ new, o.lockKey? = none)
  | granted {ticket : Ticket} {key : String} (called : .acquireCalled ticket key ∈ s.history)
      (queued : ticket ∉ (s.locks key).queue) (inTime : .lockTimedOut ticket key ∉ s.history)
      (eq : t = s.note (.lockGranted ticket key))
  | entered {task : Task J} {uow : Option UowRef} (begun : .started task uow ∈ s.history)
      (first : ∀ key, .acquireCalled ⟨task.dispatch, uow⟩ key ∉ s.history)
      (unsettled : ∀ e, .settled task.dispatch e ∉ s.history)
      (eq : t = (Locker.enter ⟨task.dispatch, uow⟩ task.aggregateName task.aggregateId s).2)
  | timedOut {ticket : Ticket} {key : String} (queued : ticket ∈ (s.locks key).queue)
      (eq : t = (s.setLock key fun entry =>
        { entry with queue := entry.queue.erase ticket }).note (.lockTimedOut ticket key))
  | released {task : Task J} (begun : .started task none ∈ s.history)
      (granted : Granted ⟨task.dispatch, none⟩ task.key s.history)
      (first : .released ⟨task.dispatch, none⟩ task.key ∉ s.history)
      (ended : Over task.dispatch s)
      (eq : t = (Locker.release ⟨task.dispatch, none⟩ task.aggregateName task.aggregateId s).2)
  | ranHook {u : UowRef} {ticket : Ticket} {aggregateName : String} {aggregateId : ID}
      (joined : ticket.uow = some u)
      (running : (s.frames u).running.head? = some (.release ticket aggregateName aggregateId))
      (eq : t = (Locker.release ticket aggregateName aggregateId s).2.hookEnded u
        (.release ticket aggregateName aggregateId))

theorem Step.locks [JsValue J] (h : Step wiring x s t) : LockChange s t := by
  have same : ∀ {t : World J}, t.locks = s.locks →
      (∃ new, t.history = new ++ s.history ∧ ∀ o ∈ new, o.lockKey? = none) →
      LockChange s t := .same
  cases h with
  | idle => exact same rfl ⟨[], rfl, by simp⟩
  | @noted _ _ o _ justified =>
      cases o with
      | lockGranted ticket key =>
          obtain ⟨hcalled, hqueued, htimedOut⟩ := justified
          exact .granted hcalled hqueued htimedOut rfl
      | acquireCalled => exact justified.elim
      | acquired => exact justified.elim
      | lockTimedOut => exact justified.elim
      | released => exact justified.elim
      | _ => exact same rfl ⟨[_], rfl, by simp [Obs.lockKey?]⟩
  | checked =>
      unfold World.checked
      dsimp only
      split
      · exact same rfl ⟨[_], rfl, by simp [Obs.lockKey?]⟩
      · exact same rfl ⟨[], rfl, by simp⟩
  | drawn => exact same rfl ⟨[], rfl, by simp⟩
  | created => exact same rfl ⟨[], rfl, by simp⟩
  | contributed =>
      refine same rfl ⟨_, World.history_contributed wiring .., fun o ho => ?_⟩
      simp only [contributionNotes, List.mem_append, List.mem_reverse, List.mem_map,
        List.mem_cons] at ho
      rcases ho with ⟨_, _, rfl⟩ | rfl | ⟨_, _, rfl⟩ <;> rfl
  | enlistedSaga => exact same rfl ⟨[_], rfl, by simp [Obs.lockKey?]⟩
  | committing => exact same rfl ⟨[], rfl, by simp⟩
  | @ran _ r v operation _ _ stores =>
      have hcontrol := stores.control
      exact same hcontrol.locks
        ⟨[.executed v operation], by rw [← hcontrol.history]; rfl, by simp [Obs.lockKey?]⟩
  | @refused _ r v operation e _ _ refuses =>
      have hcontrol := refuses.control
      exact same hcontrol.locks
        ⟨[.refused v operation e], by rw [← hcontrol.history]; rfl, by simp [Obs.lockKey?]⟩
  | committed => exact same rfl ⟨[_], rfl, by simp [Obs.lockKey?]⟩
  | commitRejected => exact same rfl ⟨[_], rfl, by simp [Obs.lockKey?]⟩
  | rolledBack => exact same rfl ⟨[_], rfl, by simp [Obs.lockKey?]⟩
  | savedSnapshot => exact same rfl ⟨[], rfl, by simp⟩
  | registeredSnapshot => exact same rfl ⟨[_], rfl, by simp [Obs.lockKey?]⟩
  | registeredRelease => exact same rfl ⟨[_], rfl, by simp [Obs.lockKey?]⟩
  | entered begun _ first unsettled => exact .entered begun first unsettled rfl
  | timedOut queued => exact .timedOut queued rfl
  | released begun granted first ended => exact .released begun granted first ended rfl
  | claimedHooks => exact same rfl ⟨[], rfl, by simp⟩
  | tookHooks => exact same rfl ⟨[_], rfl, by simp [Obs.lockKey?]⟩
  | @ranSnapshotHook _ _ _ _ _ saved =>
      cases saved <;> exact same rfl ⟨[_], rfl, by simp [Obs.lockKey?]⟩
  | ranReleaseHook joined turn => exact .ranHook joined turn.head rfl
  | setCommitted => exact same rfl ⟨[], rfl, by simp⟩
  | markedBatch => exact same rfl ⟨[], rfl, by simp⟩
  | markedEntry => exact same rfl ⟨[], rfl, by simp⟩
  | polling => exact same rfl ⟨[], rfl, by simp⟩

/-! ## The release hooks of a unit of work -/

def releaseHooks (u : UowRef) (w : World J) : List (Hook J) :=
  (heldHooks u w).filter Hook.isRelease

theorem releaseHooks_ran {ticket : Ticket} {aggregateName : String} {aggregateId : ID}
    (running : (s.frames u).running.head? = some (.release ticket aggregateName aggregateId)) :
    (releaseHooks u s).Perm (.release ticket aggregateName aggregateId ::
      releaseHooks u ((Locker.release ticket aggregateName aggregateId s).2.hookEnded u
        (.release ticket aggregateName aggregateId))) := by
  obtain ⟨_, _, h⟩ := Locker.release_eq ticket aggregateName aggregateId s
  obtain ⟨rest, hrest⟩ := List.head?_eq_some_iff.mp running
  rw [h]
  simp only [releaseHooks, heldHooks, getOrCreate, World.hookEnded, World.note,
    World.setFrame, Function.update_self, hrest, List.tail_cons, List.filter_append,
    List.filter_cons_of_pos (p := Hook.isRelease) (a := .release ticket aggregateName
      aggregateId) rfl]
  exact List.perm_middle

inductive ReleasesChange (u : UowRef) (s t : World J) : Prop
  | fewer (sub : (releaseHooks u t).Sublist (releaseHooks u s))
  | registered {task : Task J} (begun : .started task (some u) ∈ s.history)
      (granted : Granted ⟨task.dispatch, some u⟩ task.key s.history)
      (first : ¬ ReleaseRegistered task u s.history)
      (perm : (releaseHooks u t).Perm
        (.release ⟨task.dispatch, some u⟩ task.aggregateName task.aggregateId ::
          releaseHooks u s))
      (history : t.history = .registered u task.dispatch (.release ⟨task.dispatch, some u⟩
        task.aggregateName task.aggregateId) :: s.history)
  | ran {hook : Hook J} (perm : (releaseHooks u s).Perm (hook :: releaseHooks u t))

theorem HookChange.releases (h : HookChange wiring u s t) : ReleasesChange u s t := by
  cases h with
  | same hooks running =>
      refine .fewer ?_
      rw [releaseHooks, releaseHooks, heldHooks, heldHooks, getOrCreate, getOrCreate, hooks,
        running]
  | registeredSnapshot _ _ _ eq =>
      subst eq
      refine .fewer ?_
      simp [releaseHooks, heldHooks, getOrCreate, onUowCommitted, World.setHooks, World.note,
        bind, Segment.modify, note, Hook.isRelease]
  | @registeredRelease task begun granted first eq =>
      subst eq
      refine .registered begun granted first ?_ rfl
      have hkept : List.filter Hook.isRelease [Hook.release ⟨task.dispatch, some u⟩
          task.aggregateName task.aggregateId] =
          [(Hook.release ⟨task.dispatch, some u⟩ task.aggregateName task.aggregateId :
            Hook J)] := rfl
      simp only [releaseHooks, heldHooks, getOrCreate, onUowSettled, World.setHooks, World.note,
        bind, Segment.modify, note, Function.update_self, Option.getD_some, List.filter_append,
        hkept, ← List.append_assoc]
      rw [List.append_assoc _ [_]]
      exact List.perm_middle
  | claimed _ _ eq =>
      subst eq
      exact .fewer (by simp [releaseHooks, heldHooks, getOrCreate, World.setFrame])
  | @took ambient committed _ _ _ _ eq =>
      subst eq
      refine .fewer (List.Sublist.filter _ ?_)
      simp only [heldHooks, getOrCreate, takeHooks, World.setFrame, World.setHooks, World.note,
        Function.update_self, Option.getD_none, List.nil_append]
      refine List.Sublist.trans ?_ (List.sublist_append_left _ _)
      cases committed with
      | true => exact List.Sublist.refl _
      | false => exact List.sublist_append_right _ _
  | @ranSnapshotHook _ _ _ saved running eq =>
      subst eq
      refine .fewer (List.Sublist.filter _ ?_)
      cases saved <;>
        simpa [heldHooks, getOrCreate, World.hookEnded, World.savedSnapshot, World.note,
          World.setFrame] using List.tail_sublist _
  | @ranReleaseHook ticket aggregateName aggregateId joined running eq =>
      subst eq
      exact .ran (releaseHooks_ran running)

/-! ## Every lock is in order -/

/-- A step for the lock under `key` leaves the other locks in order. -/
theorem LockOk.of_other {key other : String} {h : List (Obs J)} {locks locks' : String → LockEntry}
    (hs : LockOk other h (locks other)) (new : List (Obs J))
    (hnew : ∀ o ∈ new, o.lockKey? = some key) (hne : other ≠ key)
    (hlocks : locks' other = locks other) : LockOk other (new ++ h) (locks' other) := by
  rw [hlocks]
  refine hs.append new fun o ho hkey => hne ?_
  rw [hnew o ho] at hkey
  exact (Option.some.inj hkey).symm

theorem Locker.enter_inOrder {ticket : Ticket} {aggregateName : String} {aggregateId : ID}
    (hs : ∀ key, LockOk key s.history (s.locks key))
    (hfirst : ∀ key, .acquireCalled ticket key ∉ s.history) (key : String) :
    LockOk key (enter ticket aggregateName aggregateId s).2.history
      ((enter ticket aggregateName aggregateId s).2.locks key) := by
  have hentry := hs (compositeKey aggregateName aggregateId)
  unfold enter
  dsimp only
  split
  · rename_i hfree
    by_cases hkey : key = compositeKey aggregateName aggregateId
    · subst hkey
      have htaken := hentry.take hfree (hfirst _)
      simpa [World.note, World.setLock] using htaken
    · exact (hs key).of_other [_, _] (by simp [Obs.lockKey?]) hkey
        (by simp [World.note, World.setLock, hkey])
  · rename_i hlocked
    by_cases hkey : key = compositeKey aggregateName aggregateId
    · subst hkey
      have hwaits := hentry.wait (by simpa [World.note] using hlocked) (hfirst _)
      simpa [World.note, World.setLock] using hwaits
    · exact (hs key).of_other [_] (by simp [Obs.lockKey?]) hkey
        (by simp [World.note, World.setLock, hkey])

theorem Locker.release_inOrder {ticket : Ticket} {aggregateName : String} {aggregateId : ID}
    (hs : ∀ key, LockOk key s.history (s.locks key))
    (hholder : (s.locks (compositeKey aggregateName aggregateId)).holder = some ticket)
    (key : String) :
    LockOk key (release ticket aggregateName aggregateId s).2.history
      ((release ticket aggregateName aggregateId s).2.locks key) := by
  have hentry := hs (compositeKey aggregateName aggregateId)
  unfold release
  dsimp only
  split
  · rename_i hfree
    rw [(hentry.free hfree).1] at hholder
    cases hholder
  · split
    · rename_i next rest hqueue
      by_cases hkey : key = compositeKey aggregateName aggregateId
      · subst hkey
        have hhanded := hentry.handOver hholder hqueue
        simpa [World.note, World.setLock] using hhanded
      · exact (hs key).of_other [_, _] (by simp [Obs.lockKey?]) hkey
          (by simp [World.note, World.setLock, hkey])
    · rename_i hqueue
      by_cases hkey : key = compositeKey aggregateName aggregateId
      · subst hkey
        have hgiven := hentry.giveBack hholder hqueue
        simpa [World.note, World.setLock] using hgiven
      · exact (hs key).of_other [_] (by simp [Obs.lockKey?]) hkey
          (by simp [World.note, World.setLock, hkey])

theorem LockChange.ok (h : LockChange s t) (hs : ∀ key, LockOk key s.history (s.locks key))
    (hhooks : ∀ u ticket aggregateName aggregateId,
      (s.frames u).running.head? = some (.release ticket aggregateName aggregateId) →
        (s.locks (compositeKey aggregateName aggregateId)).holder = some ticket) (key : String) :
    LockOk key t.history (t.locks key) := by
  cases h with
  | same locks spares =>
      obtain ⟨new, hnew, hspares⟩ := spares
      rw [hnew, locks]
      exact (hs key).append new fun o ho => by simp [hspares o ho]
  | @granted ticket other called queued inTime eq =>
      subst eq
      by_cases hkey : key = other
      · subst hkey
        exact (hs key).grant called queued inTime
      · exact (hs key).of_other [_] (by simp [Obs.lockKey?]) hkey rfl
  | entered _ first _ eq =>
      subst eq
      exact Locker.enter_inOrder hs first key
  | @timedOut ticket other queued eq =>
      subst eq
      by_cases hkey : key = other
      · subst hkey
        have htimedOut := (hs key).timeOut queued
        simpa [World.note, World.setLock] using htimedOut
      · exact (hs key).of_other [_] (by simp [Obs.lockKey?]) hkey
          (by simp [World.note, World.setLock, hkey])
  | @released task begun granted first ended eq =>
      subst eq
      have hacquired := granted.elim id ((hs task.key).granted _)
      exact Locker.release_inOrder hs ((hs task.key).owner _ hacquired first) key
  | @ranHook u ticket aggregateName aggregateId joined running eq =>
      subst eq
      have hreleased := Locker.release_inOrder hs (hhooks _ _ _ _ running) key
      exact hreleased.append [_] (by simp [Obs.lockKey?])

end Noddde
