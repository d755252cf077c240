import Mathlib.Order.Nat
import Noddde.Adapters.LockCalls
/-!
# The keys of one process

The key of the process belongs to one caller at a time, whatever the database does, and
nobody waits for a promise that nobody will resolve.
-/

namespace Noddde.Adapters

/-! ## KeyedMutex -/

namespace KeyedMutex

variable {K : Type} {adapter : LockAdapter} {mutex : KeyedMutex K} {key : K}

/-- In TypeORM both tables have the same entries. -/
def Paired (adapter : LockAdapter) (mutex : KeyedMutex K) : Prop :=
  adapter = .typeorm → mutex.release = mutex.pending

variable [DecidableEq K]

theorem Paired.take (h : Paired adapter mutex) : Paired adapter (mutex.take adapter key) := by
  rintro rfl
  simp only [KeyedMutex.take, h rfl]

theorem pending_take : (mutex.take adapter key).pending =
    Function.update mutex.pending key (some mutex.promises) := rfl

theorem resolved_take : (mutex.take adapter key).resolved = mutex.resolved := rfl

theorem unlock_eq (h : Paired adapter mutex) :
    (mutex.unlock adapter key).pending = Function.update mutex.pending key none ∧
      (mutex.unlock adapter key).resolved = (mutex.pending key).toList ++ mutex.resolved ∧
      Paired adapter (mutex.unlock adapter key) := by
  cases adapter with
  | drizzle => exact ⟨rfl, rfl, nofun⟩
  | typeorm =>
      have hrelease := h rfl
      cases hpending : mutex.pending key with
      | none =>
          have hunlock : mutex.unlock .typeorm key = mutex := by
            simp only [unlock, hrelease, hpending]
          rw [hunlock, ← hpending, Function.update_eq_self]
          exact ⟨rfl, by rw [hpending]; rfl, h⟩
      | some promise =>
          have hunlock : mutex.unlock .typeorm key =
              { mutex with
                release := Function.update mutex.pending key none
                pending := Function.update mutex.pending key none
                resolved := promise :: mutex.resolved } := by
            simp only [unlock, hrelease, hpending]
          rw [hunlock]
          exact ⟨rfl, rfl, fun _ => rfl⟩

theorem mem_resolved_unlock (h : Paired adapter mutex) {promise : Nat} :
    promise ∈ (mutex.unlock adapter key).resolved ↔
      mutex.pending key = some promise ∨ promise ∈ mutex.resolved := by
  rw [(unlock_eq h).2.1, List.mem_append, Option.mem_toList]

end KeyedMutex

namespace LockCalls

open Machine

/-! ## Where the callers are -/

variable {K L H : Type} {adapter : LockAdapter} {s t : LockCalls K L H}
  {calls : List (LockCall K)} {call : LockCall K} {phase : LockPhase} {caller i j n : Nat}
  {key key' : K} {promise : Nat} {p q : LockPhase → Prop}

def At (calls : List (LockCall K)) (i : Nat) (key : K) (p : LockPhase → Prop) : Prop :=
  ∃ call, calls[i]? = some call ∧ call.key = key ∧ p call.phase

def Inside (s : LockCalls K L H) (i : Nat) (key : K) : Prop :=
  At s.calls i key fun phase => phase.inside = true

def WaitsFor (s : LockCalls K L H) (i : Nat) (key : K) (promise : Nat) : Prop :=
  At s.calls i key fun phase => phase = .waiting promise

def Waits (s : LockCalls K L H) (i : Nat) (key : K) : Prop := ∃ promise, s.WaitsFor i key promise

theorem at_set (hcall : calls[caller]? = some call) :
    At (calls.set caller { call with phase }) i key p ↔
      (i = caller ∧ call.key = key ∧ p phase) ∨ (i ≠ caller ∧ At calls i key p) := by
  have hlt := (List.getElem?_eq_some_iff.mp hcall).1
  by_cases hi : i = caller
  · subst hi
    simp [At, List.getElem?_set_self hlt]
  · simp [At, List.getElem?_set_ne (Ne.symm hi), hi]

theorem at_append : At (calls ++ [call]) i key p ↔
    At calls i key p ∨ (i = calls.length ∧ call.key = key ∧ p call.phase) := by
  rcases Nat.lt_trichotomy i calls.length with hlt | rfl | hgt
  · simp [At, List.getElem?_append_left hlt, hlt.ne]
  · simp [At]
  · have hnone : calls[i]? = none := List.getElem?_eq_none hgt.le
    have hnone' : (calls ++ [call])[i]? = none := List.getElem?_eq_none (by simp; omega)
    simp [At, hnone, hnone', hgt.ne']

theorem At.lt (h : At calls i key p) : i < calls.length :=
  (List.getElem?_eq_some_iff.mp h.choose_spec.1).1

/-- Whoever is inside or waits is at one phase only. -/
theorem At.unique (h : At calls i key p) (h' : At calls i key' q) :
    ∃ phase, key = key' ∧ p phase ∧ q phase := by
  obtain ⟨call, hcall, rfl, hp⟩ := h
  obtain ⟨call', hcall', rfl, hq⟩ := h'
  obtain rfl := Option.some.inj (hcall.symm.trans hcall')
  exact ⟨call.phase, rfl, hp, hq⟩

/-! ## The key of the process -/

structure Inv (adapter : LockAdapter) (s : LockCalls K L H) : Prop where
  paired : s.mutex.Paired adapter
  exclusive : ∀ key i j, s.Inside i key → s.Inside j key → i = j
  free : ∀ key, s.mutex.pending key = none ↔ ∀ i, ¬ s.Inside i key
  /-- Nobody waits for a promise that is out of the table and not resolved. -/
  awake : ∀ key i promise, s.WaitsFor i key promise →
    promise ∈ s.mutex.resolved ∨ s.mutex.pending key = some promise

theorem inv_empty : Inv adapter ({} : LockCalls K L H) where
  paired _ := rfl
  exclusive _ i _ h := absurd h.lt (Nat.not_lt_zero i)
  free _ := iff_of_true rfl fun i h => absurd h.lt (Nat.not_lt_zero i)
  awake _ i _ h := absurd h.lt (Nat.not_lt_zero i)

/-- The caller at an index is at a phase now, and the others are where they were. -/
def Placed (s t : LockCalls K L H) (n : Nat) (key : K) (phase : LockPhase) : Prop :=
  ∀ i key' p, At t.calls i key' p ↔
    (i = n ∧ key = key' ∧ p phase) ∨ (i ≠ n ∧ At s.calls i key' p)

theorem placed_set (hcall : s.calls[n]? = some call)
    (hcalls : t.calls = s.calls.set n { call with phase }) : Placed s t n call.key phase := by
  intro i key' p
  rw [hcalls]
  exact at_set hcall

theorem placed_append {timed : Bool} (hcalls : t.calls = s.calls ++ [⟨key, timed, phase⟩]) :
    Placed s t s.calls.length key phase := by
  intro i key' p
  rw [hcalls, at_append]
  constructor
  · rintro (h | h)
    · exact .inr ⟨h.lt.ne, h⟩
    · exact .inl h
  · rintro (h | ⟨-, h⟩)
    · exact .inr h
    · exact .inl h

theorem waits_iff {key' : K} (hplaced : Placed s t n key' phase) : t.Waits i key ↔
    (i = n ∧ key' = key ∧ ∃ promise, phase = .waiting promise) ∨ (i ≠ n ∧ s.Waits i key) := by
  simp only [Waits, WaitsFor, hplaced i key]
  constructor
  · rintro ⟨promise, ⟨hi, hkey, hphase⟩ | ⟨hi, h⟩⟩
    · exact .inl ⟨hi, hkey, promise, hphase⟩
    · exact .inr ⟨hi, promise, h⟩
  · rintro (⟨hi, hkey, promise, hphase⟩ | ⟨hi, promise, h⟩)
    · exact ⟨promise, .inl ⟨hi, hkey, hphase⟩⟩
    · exact ⟨promise, .inr ⟨hi, h⟩⟩

/-- Whoever is inside does not wait, and will not. -/
theorem waits_of_inside {key' : K} (hn : s.Inside n key') (hplaced : Placed s t n key' phase)
    (hphase : ∀ promise, phase ≠ .waiting promise) : t.Waits i key ↔ s.Waits i key := by
  rw [waits_iff hplaced]
  constructor
  · rintro (⟨-, -, promise, h⟩ | ⟨-, h⟩)
    · exact absurd h (hphase promise)
    · exact h
  · intro h
    refine .inr ⟨?_, h⟩
    rintro rfl
    obtain ⟨promise, h⟩ := h
    obtain ⟨phase, -, hinside, rfl⟩ := At.unique (q := fun phase => phase = .waiting promise) hn h
    cases hinside

namespace Inv

theorem wait (hs : Inv adapter s) (hpending : s.mutex.pending key = some promise)
    (hplaced : Placed s t n key (.waiting promise)) (hmutex : t.mutex = s.mutex)
    (houtside : ∀ key', ¬ s.Inside n key') : Inv adapter t := by
  have hinside : ∀ i key', t.Inside i key' ↔ s.Inside i key' := by
    intro i key'
    refine (hplaced i key' _).trans ⟨?_, fun h => .inr ⟨fun hi => houtside key' (hi ▸ h), h⟩⟩
    rintro (⟨-, -, hphase⟩ | ⟨-, h⟩)
    · cases hphase
    · exact h
  refine ⟨hmutex ▸ hs.paired, ?_, ?_, ?_⟩
  · intro key' i j hi hj
    exact hs.exclusive key' i j ((hinside i key').mp hi) ((hinside j key').mp hj)
  · intro key'
    rw [hmutex, hs.free]
    exact forall_congr' fun i => not_congr (hinside i key').symm
  · intro key' i promise' h
    rw [hmutex]
    rcases (hplaced i key' _).mp h with ⟨-, rfl, hphase⟩ | ⟨-, h⟩
    · cases hphase
      exact .inr hpending
    · exact hs.awake key' i promise' h

theorem goOn (hs : Inv adapter s) (hn : s.Inside n key) (hphase : phase.inside = true)
    (hplaced : Placed s t n key phase) (hmutex : t.mutex = s.mutex) : Inv adapter t := by
  have hinside : ∀ i key', t.Inside i key' ↔ s.Inside i key' := by
    intro i key'
    refine (hplaced i key' _).trans ⟨?_, fun h => ?_⟩
    · rintro (⟨rfl, rfl, -⟩ | ⟨-, h⟩)
      · exact hn
      · exact h
    · by_cases hi : i = n
      · subst hi
        obtain ⟨_, hkey, -⟩ := At.unique hn h
        exact .inl ⟨rfl, hkey, hphase⟩
      · exact .inr ⟨hi, h⟩
  refine ⟨hmutex ▸ hs.paired, ?_, ?_, ?_⟩
  · intro key' i j hi hj
    exact hs.exclusive key' i j ((hinside i key').mp hi) ((hinside j key').mp hj)
  · intro key'
    rw [hmutex, hs.free]
    exact forall_congr' fun i => not_congr (hinside i key').symm
  · intro key' i promise' h
    rw [hmutex]
    rcases (hplaced i key' _).mp h with ⟨-, -, rfl⟩ | ⟨-, h⟩
    · cases hphase
    · exact hs.awake key' i promise' h

variable [DecidableEq K]

theorem enter (hs : Inv adapter s) (hfree : s.mutex.pending key = none)
    (hplaced : Placed s t n key .entered) (hmutex : t.mutex = s.mutex.take adapter key)
    (houtside : ∀ key', ¬ s.Inside n key') : Inv adapter t := by
  have hinside : ∀ i key', t.Inside i key' ↔ (i = n ∧ key = key') ∨ s.Inside i key' := by
    intro i key'
    refine (hplaced i key' _).trans ⟨?_, ?_⟩
    · rintro (⟨hi, hkey, -⟩ | ⟨-, h⟩)
      · exact .inl ⟨hi, hkey⟩
      · exact .inr h
    · rintro (⟨hi, hkey⟩ | h)
      · exact .inl ⟨hi, hkey, rfl⟩
      · exact .inr ⟨fun hi => houtside key' (hi ▸ h), h⟩
  have hnobody := (hs.free key).mp hfree
  refine ⟨hmutex ▸ hs.paired.take, ?_, ?_, ?_⟩
  · intro key' i j hi hj
    rcases (hinside i key').mp hi with ⟨rfl, rfl⟩ | hi
    · rcases (hinside j key).mp hj with ⟨rfl, -⟩ | hj
      · rfl
      · exact absurd hj (hnobody j)
    · rcases (hinside j key').mp hj with ⟨rfl, rfl⟩ | hj
      · exact absurd hi (hnobody i)
      · exact hs.exclusive key' i j hi hj
  · intro key'
    rw [hmutex, KeyedMutex.pending_take]
    by_cases hkey : key' = key
    · subst hkey
      rw [Function.update_self]
      exact iff_of_false (by simp) fun h => h n ((hinside n key').mpr (.inl ⟨rfl, rfl⟩))
    · rw [Function.update_of_ne hkey, hs.free]
      refine forall_congr' fun i => not_congr ?_
      rw [hinside]
      exact ⟨.inr, fun h => h.resolve_left fun h => hkey h.2.symm⟩
  · intro key' i promise h
    rcases (hplaced i key' _).mp h with ⟨-, -, hphase⟩ | ⟨-, h⟩
    · cases hphase
    · rw [hmutex, KeyedMutex.resolved_take, KeyedMutex.pending_take]
      by_cases hkey : key' = key
      · subst hkey
        exact .inl ((hs.awake key' i promise h).resolve_right (by simp [hfree]))
      · rw [Function.update_of_ne hkey]
        exact hs.awake key' i promise h

theorem leave (hs : Inv adapter s) (hn : s.Inside n key) (hphase : phase.ended = true)
    (hplaced : Placed s t n key phase) (hmutex : t.mutex = s.mutex.unlock adapter key) :
    Inv adapter t := by
  have hunlock : (s.mutex.unlock adapter key).pending = Function.update s.mutex.pending key none ∧
      (s.mutex.unlock adapter key).resolved = (s.mutex.pending key).toList ++ s.mutex.resolved ∧
      KeyedMutex.Paired adapter (s.mutex.unlock adapter key) := KeyedMutex.unlock_eq hs.paired
  obtain ⟨hpending, hresolved, hpaired⟩ := hunlock
  have houtside : phase.inside = false := by cases phase <;> first | rfl | cases hphase
  have hinside : ∀ i key', t.Inside i key' ↔ i ≠ n ∧ s.Inside i key' := by
    intro i key'
    refine (hplaced i key' _).trans ⟨?_, .inr⟩
    rintro (⟨-, -, h⟩ | h)
    · rw [houtside] at h
      cases h
    · exact h
  refine ⟨hmutex ▸ hpaired, ?_, ?_, ?_⟩
  · intro key' i j hi hj
    exact hs.exclusive key' i j ((hinside i key').mp hi).2 ((hinside j key').mp hj).2
  · intro key'
    rw [hmutex, hpending]
    by_cases hkey : key' = key
    · subst hkey
      rw [Function.update_self]
      refine iff_of_true rfl fun i h => ?_
      obtain ⟨hi, h⟩ := (hinside i key').mp h
      exact hi (hs.exclusive key' i n h hn)
    · rw [Function.update_of_ne hkey, hs.free]
      refine forall_congr' fun i => not_congr ?_
      rw [hinside]
      refine ⟨fun h => ⟨?_, h⟩, And.right⟩
      rintro rfl
      obtain ⟨_, heq, -⟩ := At.unique hn h
      exact hkey heq.symm
  · intro key' i promise' h
    rw [hmutex, KeyedMutex.mem_resolved_unlock hs.paired, hpending]
    rcases (hplaced i key' _).mp h with ⟨-, -, rfl⟩ | ⟨-, h⟩
    · cases hphase
    · by_cases hkey : key' = key
      · subst hkey
        exact .inl (hs.awake key' i promise' h).symm
      · rw [Function.update_of_ne hkey]
        exact (hs.awake key' i promise' h).imp_left .inr

end Inv

variable [DecidableEq K] {a : LockAction K}

/-! ## Steps -/

inductive Moves (adapter : LockAdapter) (s : LockCalls K L H) :
    LockAction K → LockCalls K L H → Prop where
  | arrives (key : K) (timed : Bool) : Moves adapter s (.acquire key timed)
      { s with
        mutex := (s.check adapter key).2
        calls := s.calls ++ [⟨key, timed, (s.check adapter key).1⟩] }
  | resumes {caller : Nat} {call : LockCall K} {promise : Nat} :
      s.calls[caller]? = some call → call.phase = .waiting promise →
      promise ∈ s.mutex.resolved → Moves adapter s (.resume caller)
        { s with
          mutex := (s.check adapter call.key).2
          calls := s.calls.set caller { call with phase := (s.check adapter call.key).1 } }
  | goesOn {a : LockAction K} {caller : Nat} {call : LockCall K} {phase : LockPhase}
      {held : List H} {session : L → Nat} : s.calls[caller]? = some call →
      call.phase.inside = true → phase.inside = true →
      Moves adapter s a
        { s with held, session, calls := s.calls.set caller { call with phase } }
  | leaves {a : LockAction K} {caller : Nat} {call : LockCall K} {phase : LockPhase}
      {held : List H} {session : L → Nat} : s.calls[caller]? = some call →
      call.phase.inside = true → phase.ended = true →
      Moves adapter s a
        { held, session
          mutex := s.mutex.unlock adapter call.key
          calls := s.calls.set caller { call with phase } }

theorem Inv.moves (hs : Inv adapter s) (h : Moves adapter s a t) : Inv adapter t := by
  cases h with
  | arrives key timed =>
      have houtside : ∀ key', ¬ s.Inside s.calls.length key' := fun key' h => h.lt.ne rfl
      cases hpending : s.mutex.pending key with
      | none =>
          simp only [check, hpending]
          exact hs.enter hpending (placed_append rfl) rfl houtside
      | some promise =>
          simp only [check, hpending]
          exact hs.wait hpending (placed_append rfl) rfl houtside
  | @resumes n call promise hcall hphase hresolved =>
      have houtside : ∀ key', ¬ s.Inside n key' := by
        intro key' h
        obtain ⟨phase, -, hinside, rfl⟩ :=
          At.unique (q := fun phase => phase = .waiting promise) h
          ⟨call, hcall, rfl, hphase⟩
        cases hinside
      cases hpending : s.mutex.pending call.key with
      | none =>
          simp only [check, hpending]
          exact hs.enter hpending (placed_set hcall rfl) rfl houtside
      | some promise =>
          simp only [check, hpending]
          exact hs.wait hpending (placed_set hcall rfl) rfl houtside
  | goesOn hcall hinside hphase =>
      exact hs.goOn ⟨_, hcall, rfl, hinside⟩ hphase (placed_set hcall rfl) rfl
  | leaves hcall hinside hphase =>
      exact hs.leave ⟨_, hcall, rfl, hinside⟩ hphase (placed_set hcall rfl) rfl

theorem pending_check_of_ne {key' : K} (hne : key ≠ key') :
    (s.check adapter key').2.pending key = s.mutex.pending key := by
  rw [check]
  cases s.mutex.pending key' with
  | none => exact Function.update_of_ne hne _ _
  | some promise => rfl

theorem check_owns : (s.check adapter key).1.owns = false := by
  rw [check]
  cases s.mutex.pending key <;> rfl

variable [DecidableEq L] [DecidableEq H] {lockOf : K → L} {heldOf : K → H}

theorem moves_of_answerLock {answer : LockAnswer} (hcall : s.calls[caller]? = some call)
    (hphase : call.phase = .acquiring)
    (h : s.answerLock adapter lockOf heldOf caller call answer = some t) :
    Moves adapter s a t := by
  have hinside : call.phase.inside = true := by rw [hphase]; rfl
  cases answer with
  | granted =>
      obtain rfl := Option.some.inj h
      exact .goesOn hcall hinside rfl
  | busy expired =>
      simp only [answerLock] at h
      split_ifs at h with hbusy hexpired
      · obtain rfl := Option.some.inj h
        exact .leaves hcall hinside rfl
      · obtain rfl := Option.some.inj h
        exact .goesOn hcall hinside rfl
  | failed executed =>
      obtain rfl := Option.some.inj h
      cases executed with
      | false => exact .leaves hcall hinside rfl
      | true => exact .leaves hcall hinside rfl

theorem moves_of_answerUnlock {believedHeld : Bool} {answer : UnlockAnswer}
    (hcall : s.calls[caller]? = some call) (hphase : call.phase = .releasing believedHeld) :
    Moves adapter s a
      (s.answerUnlock adapter lockOf heldOf caller call believedHeld answer) := by
  have hinside : call.phase.inside = true := by rw [hphase]; rfl
  cases answer with
  | answered => exact .leaves hcall hinside rfl
  | failed executed =>
      cases executed with
      | false => exact .leaves hcall hinside rfl
      | true => exact .leaves hcall hinside rfl

theorem moves_of_step (h : s.step adapter lockOf heldOf a = some t) : Moves adapter s a t := by
  cases a with
  | acquire key timed =>
      obtain rfl := Option.some.inj h
      exact .arrives key timed
  | resume caller =>
      obtain ⟨call, hcall, h⟩ := Option.bind_eq_some_iff.mp h
      cases hphase : call.phase <;> simp only [hphase, reduceCtorEq] at h
      split_ifs at h with hresolved
      obtain rfl := Option.some.inj h
      exact .resumes hcall hphase hresolved
  | submit caller =>
      obtain ⟨call, hcall, h⟩ := Option.bind_eq_some_iff.mp h
      split_ifs at h with hphase
      obtain rfl := Option.some.inj h
      exact .goesOn hcall (by rw [hphase]; rfl) rfl
  | answerLock caller answer =>
      obtain ⟨call, hcall, h⟩ := Option.bind_eq_some_iff.mp h
      split_ifs at h with hphase
      exact moves_of_answerLock hcall hphase h
  | wake caller =>
      obtain ⟨call, hcall, h⟩ := Option.bind_eq_some_iff.mp h
      split_ifs at h with hphase
      obtain rfl := Option.some.inj h
      exact .goesOn hcall (by rw [hphase]; rfl) rfl
  | release caller =>
      obtain ⟨call, hcall, h⟩ := Option.bind_eq_some_iff.mp h
      split_ifs at h with hphase
      obtain rfl := Option.some.inj h
      exact .goesOn hcall (by rw [hphase]; rfl) rfl
  | answerUnlock caller answer =>
      obtain ⟨call, hcall, h⟩ := Option.bind_eq_some_iff.mp h
      cases hphase : call.phase <;> simp only [hphase, reduceCtorEq] at h
      obtain rfl := Option.some.inj h
      exact moves_of_answerUnlock hcall hphase

theorem inv_of_run {C : LockCalls K L H → LockAction K → Prop}
    (h : Run (step adapter lockOf heldOf) C {} s) : Inv adapter s :=
  h.inv inv_empty fun _ _ _ hs _ hstep => hs.moves (moves_of_step hstep)

end LockCalls

end Noddde.Adapters
