import Noddde.Proofs.LocksReturned
/-!
# A unit of work behind its own lock

The locks are not reentrant: a second dispatch of a unit of work to one instance waits for
the lock that the first one keeps until the unit of work settles.
-/

namespace Noddde

variable {J Infra : Type} {wiring : Wiring J Infra} {x : Subject} {u : UowRef} {s t : World J}

/-- The steps of one lock, with the requests and the releases that they record. -/
inductive EntryChange (key : String) (s t : World J) : Prop
  | same (entry : t.locks key = s.locks key)
      (calls : ∀ ticket, .acquireCalled ticket key ∈ t.history →
        .acquireCalled ticket key ∈ s.history)
      (releases : ∀ ticket, .released ticket key ∈ t.history → .released ticket key ∈ s.history)
  | taken (ticket : Ticket) (free : (s.locks key).locked = false)
      (entry : t.locks key = { s.locks key with locked := true, holder := some ticket })
      (releases : ∀ ticket, .released ticket key ∈ t.history → .released ticket key ∈ s.history)
  | queued (ticket : Ticket) (first : .acquireCalled ticket key ∉ s.history)
      (called : .acquireCalled ticket key ∈ t.history)
      (entry : t.locks key = { s.locks key with queue := (s.locks key).queue ++ [ticket] })
      (calls : ∀ other, .acquireCalled other key ∈ t.history →
        .acquireCalled other key ∈ s.history ∨ other = ticket)
      (releases : ∀ ticket, .released ticket key ∈ t.history → .released ticket key ∈ s.history)
  | left (ticket : Ticket)
      (entry : t.locks key = { s.locks key with queue := (s.locks key).queue.erase ticket })
      (calls : ∀ ticket, .acquireCalled ticket key ∈ t.history →
        .acquireCalled ticket key ∈ s.history)
      (releases : ∀ ticket, .released ticket key ∈ t.history → .released ticket key ∈ s.history)
  | givenBack {ticket : Ticket} (first : .released ticket key ∉ s.history)
      (released : .released ticket key ∈ t.history)
      (calls : ∀ ticket, .acquireCalled ticket key ∈ t.history →
        .acquireCalled ticket key ∈ s.history)
      (idle : (s.locks key).queue = [] → (t.locks key).holder = none)
      (next : ∀ next rest, (s.locks key).queue = next :: rest →
        (t.locks key).holder = some next ∧ (t.locks key).queue = rest)

/-- What one step records of the requests and releases of a lock. -/
theorem Locker.enter_entry (ticket : Ticket) (aggregateName : String) (aggregateId : ID)
    (hfirst : ∀ key, .acquireCalled ticket key ∉ s.history) (key : String) :
    EntryChange key s (enter ticket aggregateName aggregateId s).2 := by
  unfold enter
  dsimp only
  split
  · rename_i hfree
    by_cases hkey : key = compositeKey aggregateName aggregateId
    · subst hkey
      refine .taken ticket hfree ?_ fun other hmem => ?_
      · simp [World.note, World.setLock]
      · simpa [World.note, World.setLock] using hmem
    · refine .same ?_ (fun other hmem => ?_) fun other hmem => ?_
      · simp [World.note, World.setLock, hkey]
      · simpa [World.note, World.setLock, hkey] using hmem
      · simpa [World.note, World.setLock] using hmem
  · rename_i hlocked
    by_cases hkey : key = compositeKey aggregateName aggregateId
    · subst hkey
      refine .queued ticket (hfirst _) ?_ ?_ (fun other hmem => ?_) fun other hmem => ?_
      · simp [World.note, World.setLock]
      · simp [World.note, World.setLock]
      · simpa [World.note, World.setLock, or_comm] using hmem
      · simpa [World.note, World.setLock] using hmem
    · refine .same ?_ (fun other hmem => ?_) fun other hmem => ?_
      · simp [World.note, World.setLock, hkey]
      · simpa [World.note, World.setLock, hkey] using hmem
      · simpa [World.note, World.setLock] using hmem

theorem Locker.release_entry {ticket : Ticket} {aggregateName : String} {aggregateId : ID}
    (hs : ∀ key, LockOk key s.history (s.locks key))
    (hholder : (s.locks (compositeKey aggregateName aggregateId)).holder = some ticket)
    (key : String) : EntryChange key s (release ticket aggregateName aggregateId s).2 := by
  have hcalls : ∀ other, .acquireCalled other key ∈
      (release ticket aggregateName aggregateId s).2.history →
        .acquireCalled other key ∈ s.history := fun other hmem =>
    Locker.mem_release_called hmem
  by_cases hkey : key = compositeKey aggregateName aggregateId
  · subst hkey
    have hlocked : (s.locks (compositeKey aggregateName aggregateId)).locked ≠ false :=
      fun hfree => by simp [((hs _).free hfree).1] at hholder
    refine .givenBack ((hs _).holder ticket hholder).2 (Locker.released_mem ..) hcalls ?_ ?_
    · intro hqueue
      unfold release
      simp [World.note, World.setLock, hlocked, hqueue]
    · intro next rest hqueue
      unfold release
      simp [World.note, World.setLock, hlocked, hqueue]
  · refine .same ?_ hcalls fun other hmem => ?_
    · unfold release
      dsimp only
      split
      · rfl
      · split <;> simp [World.note, World.setLock, hkey]
    · exact (Locker.mem_release_released hmem).resolve_right fun h => hkey h.2

/-- The end of a hook is none of the observations of a lock. -/
theorem EntryChange.hookEnded {key : String} (h : EntryChange key s t) (v : UowRef)
    (hook : Hook J) : EntryChange key s (t.hookEnded v hook) := by
  have hmem : ∀ {o : Obs J}, o ∈ (t.hookEnded v hook).history → o.lockKey? = some key →
      o ∈ t.history := by
    intro o hmem ho
    refine (List.mem_cons.mp hmem).resolve_left fun heq => ?_
    rw [heq] at ho
    cases ho
  cases h with
  | same entry calls releases =>
      exact .same entry (fun _ h => calls _ (hmem h rfl)) fun _ h => releases _ (hmem h rfl)
  | taken ticket free entry releases => exact .taken ticket free entry fun _ h => releases _ (hmem h rfl)
  | queued ticket first called entry calls releases =>
      exact .queued ticket first (List.mem_cons_of_mem _ called) entry
        (fun _ h => calls _ (hmem h rfl)) fun _ h => releases _ (hmem h rfl)
  | left ticket entry calls releases =>
      exact .left ticket entry (fun _ h => calls _ (hmem h rfl)) fun _ h => releases _ (hmem h rfl)
  | givenBack first released calls idle next =>
      exact .givenBack first (List.mem_cons_of_mem _ released) (fun _ h => calls _ (hmem h rfl))
        idle next

theorem LockChange.entry (h : LockChange s t) (hlocked : Locked s) (key : String) :
    EntryChange key s t := by
  cases h with
  | same locks spares =>
      obtain ⟨new, hnew, hspares⟩ := spares
      have hmem : ∀ {o : Obs J}, o.lockKey? = some key → o ∈ t.history → o ∈ s.history := by
        intro o ho hmem
        rw [hnew] at hmem
        refine (List.mem_append.mp hmem).resolve_left fun hmem => ?_
        rw [hspares o hmem] at ho
        cases ho
      exact .same (congrFun locks key) (fun _ => hmem rfl) fun _ => hmem rfl
  | granted _ _ _ eq =>
      subst eq
      exact .same rfl (fun _ hmem => by simpa [World.note] using hmem)
        fun _ hmem => by simpa [World.note] using hmem
  | entered _ first _ eq =>
      subst eq
      exact Locker.enter_entry _ _ _ first key
  | @timedOut ticket other queued eq =>
      subst eq
      have hcalls : ∀ ticket', .acquireCalled ticket' key ∈
          ((s.setLock other fun entry =>
            { entry with queue := entry.queue.erase ticket }).note
              (.lockTimedOut ticket other)).history →
          .acquireCalled ticket' key ∈ s.history := fun _ hmem => by
        simpa [World.note, World.setLock] using hmem
      have hreleases : ∀ ticket', .released ticket' key ∈
          ((s.setLock other fun entry =>
            { entry with queue := entry.queue.erase ticket }).note
              (.lockTimedOut ticket other)).history →
          .released ticket' key ∈ s.history := fun _ hmem => by
        simpa [World.note, World.setLock] using hmem
      by_cases hkey : key = other
      · subst hkey
        exact .left ticket (by simp [World.note, World.setLock]) hcalls hreleases
      · exact .same (by simp [World.note, World.setLock, hkey]) hcalls hreleases
  | @released task begun granted first ended eq =>
      subst eq
      have hacquired := granted.elim id ((hlocked.locks task.key).granted _)
      exact Locker.release_entry hlocked.locks ((hlocked.locks task.key).owner _ hacquired first) key
  | @ranHook u ticket aggregateName aggregateId joined running eq =>
      subst eq
      obtain ⟨_, -, -, -, hholder⟩ := hlocked.holder_of_running running
      exact (Locker.release_entry hlocked.locks hholder key).hookEnded u _

/-! ## Steps -/

section Runs

variable [JsValue J] {workload : Workload J} {q : Process J Infra}

end Runs

/-! ## A scope that adds to one counter twice -/

namespace Sample

end Sample

end Noddde
