import Noddde.Adapters.AdvisoryLocker
import Noddde.Async.Fairness
import Noddde.Proofs.LockCalls
/-!
# Two levels of locks

The session holds a lock as often as there are callers that own it, unless a call on the
database fails with the wrong outcome.  A key that is given back goes to one of those who
wait for it, unless another caller comes first.
-/

namespace Noddde.Adapters.LockCalls

open Machine

variable {K L H : Type} {adapter : LockAdapter} {s t waiters : LockCalls K L H}
  {call : LockCall K} {phase : LockPhase} {a : LockAction K} {caller i j n : Nat} {key : K}

/-- A call on the database fails with the right outcome: the lock is not taken, or it is
released. -/
def FailsWell (_ : LockCalls K L H) : LockAction K → Prop
  | .answerLock _ (.failed executed) => executed = false
  | .answerUnlock _ (.failed executed) => executed = true
  | _ => True

/-- No caller takes a key that was given back to those who wait for it. -/
def InTurn (s : LockCalls K L H) : LockAction K → Prop
  | .acquire key _ => s.mutex.pending key = none → ∀ i, ¬ s.Waits i key
  | _ => True

/-! ## The locks of the session -/

section Session

variable [DecidableEq L] {lockOf : K → L}

def ownsLock (lockOf : K → L) (lock : L) (call : LockCall K) : Bool :=
  call.phase.owns && decide (lockOf call.key = lock)

/-- The session holds each lock as often as it is owned. -/
def Counted (lockOf : K → L) (s : LockCalls K L H) : Prop :=
  ∀ lock, s.session lock = s.calls.countP (ownsLock lockOf lock)

theorem Counted.set (hs : Counted lockOf s) (hcall : s.calls[caller]? = some call)
    (hcalls : t.calls = s.calls.set caller { call with phase })
    (hsession : ∀ lock,
      t.session lock + (if ownsLock lockOf lock call then 1 else 0) =
        s.session lock + if ownsLock lockOf lock { call with phase } then 1 else 0) :
    Counted lockOf t := by
  intro lock
  obtain ⟨hlt, rfl⟩ := List.getElem?_eq_some_iff.mp hcall
  have hbalance := hsession lock
  have hpositive : ownsLock lockOf lock s.calls[caller] = true →
      0 < s.calls.countP (ownsLock lockOf lock) := fun howns =>
    List.countP_pos_iff.mpr ⟨_, List.getElem_mem hlt, howns⟩
  rw [hs lock] at hbalance
  rw [hcalls, List.countP_set hlt]
  split_ifs at hbalance ⊢ <;> grind

/-- The caller neither gets a lock nor gives one back. -/
theorem Counted.keep (hs : Counted lockOf s) (hcall : s.calls[caller]? = some call)
    (hcalls : t.calls = s.calls.set caller { call with phase }) (hsession : t.session = s.session)
    (howns : phase.owns = call.phase.owns) : Counted lockOf t :=
  hs.set hcall hcalls fun lock => by simp [hsession, ownsLock, howns]

theorem Counted.append {timed : Bool} (hs : Counted lockOf s)
    (hcalls : t.calls = s.calls ++ [⟨key, timed, phase⟩]) (hsession : t.session = s.session)
    (howns : phase.owns = false) : Counted lockOf t := by
  intro lock
  rw [hcalls, hsession, hs lock, List.countP_append]
  simp [ownsLock, howns]

theorem Counted.lock (hs : Counted lockOf s) (hcall : s.calls[caller]? = some call)
    (hcalls : t.calls = s.calls.set caller { call with phase })
    (hsession : t.session = (s.lock (lockOf call.key)).session)
    (hbefore : call.phase.owns = false) (hafter : phase.owns = true) : Counted lockOf t := by
  refine hs.set hcall hcalls fun lock => ?_
  by_cases hlock : lock = lockOf call.key
  · subst hlock
    simp [hsession, LockCalls.lock, ownsLock, hbefore, hafter]
  · simp [hsession, LockCalls.lock, ownsLock, hbefore, hlock, Ne.symm hlock]

theorem Counted.unlock (hs : Counted lockOf s) (hcall : s.calls[caller]? = some call)
    (hcalls : t.calls = s.calls.set caller { call with phase })
    (hsession : t.session = (s.unlock (lockOf call.key)).session)
    (hbefore : call.phase.owns = true) (hafter : phase.owns = false) : Counted lockOf t := by
  refine hs.set hcall hcalls fun lock => ?_
  by_cases hlock : lock = lockOf call.key
  · subst hlock
    have hpositive : 0 < s.session (lockOf call.key) := by
      rw [hs]
      refine List.countP_pos_iff.mpr ⟨call, List.mem_of_getElem? hcall, ?_⟩
      simp [ownsLock, hbefore]
    simp [hsession, LockCalls.unlock, ownsLock, hbefore, hafter, Nat.sub_add_cancel hpositive]
  · simp [hsession, LockCalls.unlock, ownsLock, hafter, hlock, Ne.symm hlock]

theorem Counted.quiet (hs : Counted lockOf s)
    (hended : ∀ call ∈ s.calls, call.phase.ended = true) (lock : L) : s.session lock = 0 := by
  rw [hs lock, List.countP_eq_zero]
  intro call hmem howns
  have hphase := hended call hmem
  have howner := (Bool.and_eq_true_iff.mp howns).1
  cases h : call.phase <;> simp [h, LockPhase.ended, LockPhase.owns] at hphase howner

end Session

section Steps

variable [DecidableEq K] [DecidableEq L] [DecidableEq H] {lockOf : K → L} {heldOf : K → H}

theorem Counted.answerLock {answer : LockAnswer} (hs : Counted lockOf s)
    (hcall : s.calls[caller]? = some call) (hphase : call.phase = .acquiring)
    (hfails : FailsWell s (.answerLock caller answer))
    (h : s.answerLock adapter lockOf heldOf caller call answer = some t) : Counted lockOf t := by
  have hbefore : call.phase.owns = false := by rw [hphase]; rfl
  cases answer with
  | granted =>
      obtain rfl := Option.some.inj h
      exact hs.lock hcall rfl rfl hbefore rfl
  | busy expired =>
      simp only [LockCalls.answerLock] at h
      split_ifs at h with hbusy hexpired
      · obtain rfl := Option.some.inj h
        exact hs.keep hcall rfl rfl hbefore.symm
      · obtain rfl := Option.some.inj h
        exact hs.keep hcall rfl rfl hbefore.symm
  | failed executed =>
      obtain rfl : executed = false := hfails
      obtain rfl := Option.some.inj h
      exact hs.keep hcall rfl rfl hbefore.symm

theorem Counted.answerUnlock {believedHeld : Bool} {answer : UnlockAnswer}
    (hs : Counted lockOf s) (hcall : s.calls[caller]? = some call)
    (hphase : call.phase = .releasing believedHeld)
    (hfails : FailsWell s (.answerUnlock caller answer)) :
    Counted lockOf (s.answerUnlock adapter lockOf heldOf caller call believedHeld answer) := by
  have hbefore : call.phase.owns = true := by rw [hphase]; rfl
  cases answer with
  | answered => exact hs.unlock hcall rfl rfl hbefore rfl
  | failed executed =>
      obtain rfl : executed = true := hfails
      exact hs.unlock hcall rfl rfl hbefore rfl

theorem Counted.step (hs : Counted lockOf s) (hfails : FailsWell s a)
    (h : s.step adapter lockOf heldOf a = some t) : Counted lockOf t := by
  cases a with
  | acquire key timed =>
      obtain rfl := Option.some.inj h
      exact hs.append rfl rfl check_owns
  | resume caller =>
      obtain ⟨call, hcall, h⟩ := Option.bind_eq_some_iff.mp h
      cases hphase : call.phase <;> simp only [hphase, reduceCtorEq] at h
      split_ifs at h with hresolved
      obtain rfl := Option.some.inj h
      exact hs.keep hcall rfl rfl (check_owns.trans (by rw [hphase]; rfl))
  | submit caller =>
      obtain ⟨call, hcall, h⟩ := Option.bind_eq_some_iff.mp h
      split_ifs at h with hphase
      obtain rfl := Option.some.inj h
      exact hs.keep hcall rfl rfl (by rw [hphase]; rfl)
  | answerLock caller answer =>
      obtain ⟨call, hcall, h⟩ := Option.bind_eq_some_iff.mp h
      split_ifs at h with hphase
      exact hs.answerLock hcall hphase hfails h
  | wake caller =>
      obtain ⟨call, hcall, h⟩ := Option.bind_eq_some_iff.mp h
      split_ifs at h with hphase
      obtain rfl := Option.some.inj h
      exact hs.keep hcall rfl rfl (by rw [hphase]; rfl)
  | release caller =>
      obtain ⟨call, hcall, h⟩ := Option.bind_eq_some_iff.mp h
      split_ifs at h with hphase
      obtain rfl := Option.some.inj h
      exact hs.keep hcall rfl rfl (by rw [hphase]; rfl)
  | answerUnlock caller answer =>
      obtain ⟨call, hcall, h⟩ := Option.bind_eq_some_iff.mp h
      cases hphase : call.phase <;> simp only [hphase, reduceCtorEq] at h
      obtain rfl := Option.some.inj h
      exact hs.answerUnlock hcall hphase hfails

theorem counted_of_run (h : Run (step adapter lockOf heldOf) FailsWell {} s) : Counted lockOf s :=
  h.inv (fun _ => rfl) fun _ _ _ hs hfails hstep => hs.step hfails hstep

end Steps

/-! ## Those who wait -/

variable [DecidableEq K]

/-- Of those who waited for the key one is in, and the others still wait. -/
def LetsOneIn (s t : LockCalls K L H) (key : K) : Prop :=
  ∃ i, s.Waits i key ∧ t.Inside i key ∧ ∀ j, s.Waits j key → j ≠ i → t.Waits j key

/-- The key is free, and the same callers wait for it. -/
structure FreeFor (adapter : LockAdapter) (waiters : LockCalls K L H) (key : K)
    (s : LockCalls K L H) : Prop where
  inv : Inv adapter s
  free : s.mutex.pending key = none
  same : ∀ i, s.Waits i key ↔ waiters.Waits i key

theorem FreeFor.moves (hs : FreeFor adapter waiters key s) (hwaits : waiters.Waits i key)
    (hturn : InTurn s a) (h : Moves adapter s a t) :
    FreeFor adapter waiters key t ∨ LetsOneIn waiters t key := by
  have ht := hs.inv.moves h
  cases h with
  | arrives key' timed =>
      by_cases hkey : key = key'
      · subst hkey
        exact absurd ((hs.same i).mpr hwaits) (hturn hs.free i)
      · refine .inl ⟨ht, (pending_check_of_ne hkey).trans hs.free, fun j => ?_⟩
        rw [waits_iff (placed_append rfl), ← hs.same]
        constructor
        · rintro (⟨-, heq, -⟩ | ⟨-, h⟩)
          · exact absurd heq.symm hkey
          · exact h
        · exact fun h => .inr ⟨h.choose_spec.lt.ne, h⟩
  | @resumes n call promise hcall hphase hresolved =>
      have hn : s.Waits n call.key := ⟨promise, call, hcall, rfl, hphase⟩
      by_cases hkey : key = call.key
      · subst hkey
        refine .inr ⟨n, (hs.same n).mp hn, ?_, fun j hj hne => ?_⟩
        · refine (placed_set hcall rfl n call.key _).mpr (.inl ⟨rfl, rfl, ?_⟩)
          simp only [check, hs.free]
          rfl
        · exact (waits_iff (placed_set hcall rfl)).mpr (.inr ⟨hne, (hs.same j).mpr hj⟩)
      · refine .inl ⟨ht, (pending_check_of_ne hkey).trans hs.free, fun j => ?_⟩
        rw [waits_iff (placed_set hcall rfl), ← hs.same]
        constructor
        · rintro (⟨-, heq, -⟩ | ⟨-, h⟩)
          · exact absurd heq.symm hkey
          · exact h
        · intro h
          refine .inr ⟨?_, h⟩
          rintro rfl
          obtain ⟨_, heq, -⟩ := At.unique hn.choose_spec h.choose_spec
          exact hkey heq.symm
  | @goesOn _ n call phase _ _ hcall hinside hphase =>
      refine .inl ⟨ht, hs.free, fun j => ?_⟩
      rw [← hs.same]
      refine waits_of_inside ⟨call, hcall, rfl, hinside⟩ (placed_set hcall rfl) ?_
      rintro promise rfl
      cases hphase
  | @leaves _ n call phase _ _ hcall hinside hphase =>
      refine .inl ⟨ht, ?_, fun j => ?_⟩
      · rw [(KeyedMutex.unlock_eq hs.inv.paired).1, Function.update_apply, hs.free, ite_self]
      · rw [← hs.same]
        refine waits_of_inside ⟨call, hcall, rfl, hinside⟩ (placed_set hcall rfl) ?_
        rintro promise rfl
        cases hphase

def Rejects (s t : LockCalls K L H) (i : Nat) (key : K) : Prop :=
  s.Inside i key ∧ At t.calls i key fun phase => ∃ failure, phase = .rejected failure

/-- A caller rejects by giving the key back. -/
theorem Moves.pending_of_rejects (h : Moves adapter s a t) (hs : s.mutex.Paired adapter)
    (hrejects : Rejects s t i key) : t.mutex.pending key = none := by
  obtain ⟨hinside, hrejected⟩ := hrejects
  have hbefore : ¬ At s.calls i key fun phase => ∃ failure, phase = .rejected failure := by
    intro h
    obtain ⟨_, -, hphase, failure, rfl⟩ := At.unique hinside h
    cases hphase
  cases h with
  | arrives key' timed =>
      rcases (placed_append rfl i key _).mp hrejected with ⟨rfl, -⟩ | ⟨-, h⟩
      · exact absurd rfl hinside.lt.ne
      · exact absurd h hbefore
  | resumes hcall =>
      rcases (placed_set hcall rfl i key _).mp hrejected with ⟨-, -, failure, hphase⟩ | ⟨-, h⟩
      · rw [check] at hphase
        split at hphase <;> cases hphase
      · exact absurd h hbefore
  | goesOn hcall _ hphase =>
      rcases (placed_set hcall rfl i key _).mp hrejected with ⟨-, -, failure, rfl⟩ | ⟨-, h⟩
      · cases hphase
      · exact absurd h hbefore
  | leaves hcall =>
      rcases (placed_set hcall rfl i key _).mp hrejected with ⟨-, rfl, -⟩ | ⟨-, h⟩
      · rw [(KeyedMutex.unlock_eq hs).1, Function.update_self]
      · exact absurd h hbefore

variable [DecidableEq L] [DecidableEq H] {lockOf : K → L} {heldOf : K → H}

/-- The caller's promise is resolved, and it checks again. -/
def Resumes (i : Nat) (a : LockAction K) : Prop := a = .resume i

theorem FreeFor.resume (hs : FreeFor adapter waiters key s) (hwaits : waiters.Waits i key) :
    ∃ t, s.step adapter lockOf heldOf (.resume i) = some t ∧ t.Inside i key := by
  obtain ⟨promise, call, hcall, hkey, hphase⟩ := (hs.same i).mpr hwaits
  subst hkey
  have hresolved : promise ∈ s.mutex.resolved :=
    (hs.inv.awake call.key i promise ⟨call, hcall, rfl, hphase⟩).resolve_right (by simp [hs.free])
  refine ⟨_, by simp only [step, hcall, Option.bind_some, hphase, if_pos hresolved]; rfl, ?_⟩
  refine (placed_set hcall rfl i call.key _).mpr (.inl ⟨rfl, rfl, ?_⟩)
  simp only [check, hs.free]
  rfl

theorem FreeFor.resumed (hs : FreeFor adapter waiters key s) (hwaits : waiters.Waits i key)
    (h : s.step adapter lockOf heldOf (.resume i) = some t) : LetsOneIn waiters t key := by
  rcases hs.moves hwaits (a := .resume i) trivial (moves_of_step h) with ht | ht
  · have hentered : ∃ u, s.step adapter lockOf heldOf (.resume i) = some u ∧ u.Inside i key :=
      hs.resume hwaits
    obtain ⟨u, hu, hinside⟩ := hentered
    obtain rfl := Option.some.inj (hu.symm.trans h)
    exact absurd hinside ((ht.inv.free key).mp ht.free i)
  · exact ht

/-! ## What the lockers promise -/

structure Excludes (adapter : LockAdapter) (lockOf : K → L) (heldOf : K → H)
    (s : LockCalls K L H) : Prop where
  exclusive : ∀ key i j, s.Inside i key → s.Inside j key → i = j
  /-- Whoever waits gets in when its promise is resolved, which it is. -/
  rejectFrees : ∀ a t i key, s.step adapter lockOf heldOf a = some t → Rejects s t i key →
    t.mutex.pending key = none ∧ ∀ j, t.Waits j key →
      ∃ u, t.step adapter lockOf heldOf (.resume j) = some u ∧ u.Inside j key

/-- A key that is given back goes to one of those who wait for it. -/
def LetsWaitersIn (e : Execution (step adapter lockOf heldOf)) : Prop :=
  ∀ n key, (e.state n).mutex.pending key = none → (∃ i, (e.state n).Waits i key) →
    ∃ m, n ≤ m ∧ LetsOneIn (e.state n) (e.state m) key ∧
      ∀ l, n ≤ l → l < m → ∀ i, ¬ (e.state l).Inside i key

/-- What the lockers promise, where the calls on the database and the calls of `acquire` meet
conditions. -/
structure LockersExclude (adapter : LockAdapter) (lockOf : K → L) (heldOf : K → H)
    (fails turns : LockCalls K L H → LockAction K → Prop) : Prop where
  always : ∀ s, Reaches (step adapter lockOf heldOf) {} s → Excludes adapter lockOf heldOf s
  /-- A session without callers holds no lock. -/
  quiet : ∀ s, Run (step adapter lockOf heldOf) fails {} s →
    (∀ call ∈ s.calls, call.phase.ended = true) → ∀ lock, s.session lock = 0
  eventually : ∀ e : Execution (step adapter lockOf heldOf), e.state 0 = {} → e.Meets turns →
    (∀ i, e.Fair (Resumes i)) → LetsWaitersIn e

theorem Inv.rejectFrees (hs : Inv adapter s) (hstep : s.step adapter lockOf heldOf a = some t)
    (hrejects : Rejects s t i key) : t.mutex.pending key = none ∧ ∀ j, t.Waits j key →
      ∃ u, t.step adapter lockOf heldOf (.resume j) = some u ∧ u.Inside j key := by
  have ht := hs.moves (moves_of_step hstep)
  have hfree := (moves_of_step hstep).pending_of_rejects hs.paired hrejects
  exact ⟨hfree, fun j hj => FreeFor.resume ⟨ht, hfree, fun _ => Iff.rfl⟩ hj⟩

theorem letsWaitersIn {e : Execution (step adapter lockOf heldOf)} (h₀ : e.state 0 = {})
    (hC : e.Meets InTurn) (hfair : ∀ i, e.Fair (Resumes i)) : LetsWaitersIn e := by
  rintro n key hfree ⟨i, hi⟩
  have hrun := e.run hC n
  rw [h₀] at hrun
  obtain ⟨m, hm, hone, huntil⟩ := e.reaches_of_fair
    (P := FreeFor adapter (e.state n) key) hC (hfair i)
    (fun _ _ _ hs hturn hstep => hs.moves hi hturn (moves_of_step hstep))
    (fun _ hs => (hs.resume hi).elim fun t ht => ⟨_, t, rfl, ht.1⟩)
    (fun _ _ _ hs _ ha hstep => hs.resumed hi (ha ▸ hstep))
    ⟨inv_of_run hrun, hfree, fun _ => Iff.rfl⟩
  refine ⟨m, hm, hone, fun l hl hlm => ?_⟩
  have huntil := huntil l hl hlm
  exact (huntil.inv.free key).mp huntil.free

/-- The lockers exclude whatever the database does.  The session is left without locks where
every call fails with the right outcome, and those who wait get in where nobody comes first. -/
theorem lockersExclude : LockersExclude adapter lockOf heldOf FailsWell InTurn where
  always _ hs :=
    { exclusive := (inv_of_run hs).exclusive
      rejectFrees := fun _ _ _ _ hstep => (inv_of_run hs).rejectFrees hstep }
  quiet _ hs := (counted_of_run hs).quiet
  eventually _ h₀ hC hfair := letsWaitersIn h₀ hC hfair

namespace Sample

def account : JsString := lockerKey (Json.ascii "Account") (Json.ascii "1")

/-- Callers 1 and 2 wait when the statement of caller 0 fails, and then have the key one after
the other; the call that releases the lock of caller 1 fails, and is executed. -/
def handedOn : List (LockAction JsString) :=
  [.acquire account false, .submit 0, .acquire account false, .acquire account false,
    .answerLock 0 (.failed false), .resume 1, .resume 2, .submit 1, .answerLock 1 .granted,
    .release 1, .answerUnlock 1 (.failed true), .resume 2, .submit 2, .answerLock 2 .granted,
    .release 2, .answerUnlock 2 .answered]

theorem handedOn_failsWell :
    ∀ a ∈ handedOn, ∀ s : LockCalls JsString Int64 JsString, FailsWell s a := by
  intro a ha s
  simp only [handedOn, List.mem_cons, List.not_mem_nil, or_false] at ha
  rcases ha with rfl | rfl | rfl | rfl | rfl | rfl | rfl | rfl | rfl | rfl | rfl | rfl | rfl |
    rfl | rfl | rfl <;> trivial

theorem lockersExclude_waiters :
    ∃ s, play (step .typeorm fnv1a64 (id : JsString → JsString)) handedOn {} = some s ∧
      s.calls.map (·.phase) = [.rejected .database, .released true, .released false] ∧
      (∀ lock, s.session lock = 0) ∧
      Excludes .typeorm fnv1a64 (id : JsString → JsString) s := by
  have hplay : (play (step .typeorm fnv1a64 (id : JsString → JsString)) handedOn {}).map
      (fun s => s.calls.map (·.phase)) =
        some [.rejected .database, .released true, .released false] := by decide +kernel
  obtain ⟨s, hs, hphases⟩ := Option.map_eq_some_iff.mp hplay
  have hrun := run_of_play handedOn_failsWell hs
  have hended : ∀ call ∈ s.calls, call.phase.ended = true := by
    intro call hcall
    have hphase := List.mem_map_of_mem (f := (·.phase)) hcall
    rw [hphases] at hphase
    simp only [List.mem_cons, List.not_mem_nil, or_false] at hphase
    rcases hphase with hphase | hphase | hphase <;> rw [hphase] <;> rfl
  exact ⟨s, hs, hphases, lockersExclude.quiet s hrun hended,
    lockersExclude.always s hrun.reaches⟩

/-- `pg_advisory_unlock` fails, and is not executed. -/
def leak : List (LockAction JsString) :=
  [.acquire account false, .submit 0, .answerLock 0 .granted, .release 0,
    .answerUnlock 0 (.failed false)]

/-- The key is given back while caller 1 waits, and caller 2 takes it. -/
def barge : List (LockAction JsString) :=
  [.acquire account false, .submit 0, .answerLock 0 .granted, .acquire account false,
    .release 0, .answerUnlock 0 .answered, .acquire account false, .resume 1]

/-- The session keeps a lock for nobody. -/
theorem not_quiet_of_leak {adapter : LockAdapter} {H : Type} [DecidableEq H]
    {heldOf : JsString → H} {turns : LockCalls JsString Int64 H → LockAction JsString → Prop}
    (hplay : ((play (step adapter fnv1a64 heldOf) leak {}).map fun s =>
      (s.session (fnv1a64 account), s.calls.all (·.phase.ended))) = some (1, true)) :
    ¬ LockersExclude adapter fnv1a64 heldOf (fun _ _ => True) turns := by
  intro h
  obtain ⟨s, hs, hstate⟩ := Option.map_eq_some_iff.mp hplay
  obtain ⟨hsession, hended⟩ := Prod.mk.inj hstate
  have hrun := run_of_play (C := fun _ _ => True) (fun _ _ _ => trivial) hs
  have hquiet := h.quiet s hrun fun call hmem => List.all_eq_true.mp hended call hmem
  rw [hquiet] at hsession
  cases hsession

def bargeExecution : Execution (step .typeorm fnv1a64 (id : JsString → JsString)) :=
  Execution.ofActions barge {} (by decide)

theorem bargeExecution_rests {m : Nat} (hm : 8 ≤ m) :
    bargeExecution.state m = bargeExecution.state 8 := by
  have hlength : barge.length ≤ m := hm
  simp only [bargeExecution, Execution.ofActions, List.take_of_length_le hlength]
  rfl

/-- The phase of caller 1, from when the key is given back. -/
theorem bargeExecution_waits {m : Nat} (hm : 6 ≤ m) : ∃ promise,
    (bargeExecution.state m).calls[1]?.map (·.phase) = some (.waiting promise) := by
  rcases (by omega : m = 6 ∨ m = 7 ∨ 8 ≤ m) with rfl | rfl | hle
  · exact ⟨0, by decide⟩
  · exact ⟨0, by decide⟩
  · rw [bargeExecution_rests hle]
    exact ⟨1, by decide⟩

theorem bargeExecution_stuck (i : Nat) :
    (bargeExecution.state 8).step .typeorm fnv1a64 id (.resume i) = none := by
  by_cases hi : i < 3
  · have hnone : ∀ i < 3,
        ((bargeExecution.state 8).step .typeorm fnv1a64 id (.resume i)).isNone = true := by decide
    exact Option.isNone_iff_eq_none.mp (hnone i hi)
  · have hcall : (bargeExecution.state 8).calls[i]? = none :=
      List.getElem?_eq_none (show 3 ≤ i by omega)
    rw [step, hcall, Option.bind_none]

/-- Where caller 2 stays, caller 1 is not let in, although every call on the database is
answered. -/
theorem not_letsWaitersIn_barge :
    (∀ i, bargeExecution.Fair (Resumes i)) ∧ ¬ LetsWaitersIn bargeExecution := by
  constructor
  · intro i
    refine Execution.fair_ofActions _ ?_
    rintro ⟨_, t, rfl, hstep⟩
    have hstuck := bargeExecution_stuck i
    exact absurd (hstuck.symm.trans hstep) (by simp)
  · intro h
    have hcalls : (bargeExecution.state 6).calls =
        [⟨account, false, .released false⟩, ⟨account, false, .waiting 0⟩] := by decide
    obtain ⟨m, hm, ⟨i, ⟨promise, call, hcall, -, hphase⟩, hinside, -⟩, -⟩ :=
      h 6 account (by decide) ⟨1, 0, _, by rw [hcalls]; rfl, rfl, rfl⟩
    obtain rfl : i = 1 := by
      rw [hcalls] at hcall
      rcases i with _ | _ | i
      · obtain rfl := Option.some.inj hcall
        cases hphase
      · rfl
      · cases hcall
    obtain ⟨promise', hwaits⟩ := bargeExecution_waits hm
    obtain ⟨call', hcall', -, hin⟩ := hinside
    rw [hcall', Option.map_some, Option.some.injEq] at hwaits
    rw [hwaits] at hin
    cases hin

/-- Both lockers leak where no call fails well, and that of TypeORM keeps a waiter out where
every call does. -/
theorem lockersExclude_fails :
    ¬ LockersExclude .drizzle fnv1a64 fnv1a64 (fun _ _ => True) (fun _ _ => True) ∧
      ¬ LockersExclude .typeorm fnv1a64 (id : JsString → JsString) (fun _ _ => True)
        (fun _ _ => True) ∧
      ¬ LockersExclude .typeorm fnv1a64 (id : JsString → JsString) FailsWell
        fun _ _ => True := by
  refine ⟨not_quiet_of_leak (by decide), not_quiet_of_leak (by decide), fun h => ?_⟩
  exact not_letsWaitersIn_barge.2
    (h.eventually bargeExecution rfl (Execution.meets_true _) not_letsWaitersIn_barge.1)

end Sample

end Noddde.Adapters.LockCalls
