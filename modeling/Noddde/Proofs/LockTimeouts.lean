import Noddde.Adapters.LockTimeout
/-!
# Which timeouts are honoured

The deadline is taken behind the gate, and nothing bounds the time that the gate takes.
-/

namespace Noddde.Adapters.PostgresLocker

open InMemoryAggregateLocker

def HasGate (schedule : Schedule) (request : Request) (start t : Nat) : Prop :=
  (∃ now, acquireLocal schedule.gates start = some now ∧ now ≤ t) ∧
    ∀ settled, acquire schedule request start = some settled →
      settled.footprint.gate = false → t ≤ settled.time

/-- Somebody else holds the key: a session of another process, or a call of this process
behind whose gate the call waits. -/
def HeldByOthers (schedule : Schedule) (request : Request) (start t : Nat) : Prop :=
  schedule.otherProcess t = true ∨
    schedule.sameProcess t = true ∧ ¬ HasGate schedule request start t

/-- `acquire` rejects in time, with what the interface says, and leaves no trace. -/
def Honours (schedule : Schedule) (request : Request) (start : Nat) : Prop :=
  ∃ settled, acquire schedule request start = some settled ∧
    settled.outcome = .error request.timeoutError ∧
    settled.time ≤ start + request.timeoutMs.getD 0 + 50 ∧ settled.footprint = {}

def sleeps (timeoutMs : Nat) : Nat := (timeoutMs + 49) / 50

/-- Each gate is resolved so early that the polling behind it ends in time. -/
def ResolvedInTime (schedule : Schedule) (request : Request) (start : Nat) : Prop :=
  ∀ gate ∈ schedule.gates, ∃ resolved, gate = some resolved ∧
    resolved + 50 * sleeps (request.timeoutMs.getD 0) ≤
      start + request.timeoutMs.getD 0 + 50

/-! ## The gate -/

theorem acquireLocal_le_iff (gates : List (Option Nat)) (now bound : Nat) :
    (∃ time, acquireLocal gates now = some time ∧ time ≤ bound) ↔
      now ≤ bound ∧ ∀ gate ∈ gates, ∃ resolved, gate = some resolved ∧ resolved ≤ bound := by
  induction gates generalizing now with
  | nil => simp [acquireLocal]
  | cons gate rest ih =>
      cases gate with
      | none => simp [acquireLocal]
      | some resolved =>
          simp only [acquireLocal, ih, Nat.max_le, List.forall_mem_cons, Option.some.injEq,
            exists_eq_left', and_assoc]

theorem le_of_acquireLocal {gates : List (Option Nat)} {now time : Nat}
    (h : acquireLocal gates now = some time) : now ≤ time := by
  induction gates generalizing now with
  | nil => exact Nat.le_of_eq (Option.some.inj h)
  | cons gate rest ih =>
      cases gate with
      | none => cases h
      | some resolved => exact Nat.le_trans (Nat.le_max_left now resolved) (ih h)

/-! ## The loop -/

theorem poll_acquired {request : Request} {otherProcess : Nat → Bool} {deadline now : Nat}
    (h : (poll request otherProcess deadline now).outcome = .ok ()) :
    let settled := poll request otherProcess deadline now
    otherProcess settled.time = false ∧ now ≤ settled.time ∧
      settled.time ≤ now + 50 * sleeps (deadline - now) ∧
      settled.footprint = ⟨true, true, true⟩ := by
  fun_induction poll request otherProcess deadline now with
  | case1 now hfree => exact ⟨hfree, Nat.le_refl _, Nat.le_add_right _ _, rfl⟩
  | case2 now hbusy hdeadline => cases h
  | case3 now hbusy hdeadline ih =>
      obtain ⟨hfree, hle, htime, hfootprint⟩ := ih h
      refine ⟨hfree, by omega, ?_, hfootprint⟩
      unfold sleeps at htime ⊢
      omega

theorem poll_timedOut {request : Request} {otherProcess : Nat → Bool} {deadline now : Nat}
    {e : Err} (h : (poll request otherProcess deadline now).outcome = .error e) :
    poll request otherProcess deadline now =
      ⟨now + 50 * sleeps (deadline - now), .error request.timeoutError, { gate := true }⟩ := by
  fun_induction poll request otherProcess deadline now with
  | case1 now hfree => cases h
  | case2 now hbusy hdeadline =>
      have hsleeps : sleeps (deadline - now) = 0 := by
        unfold sleeps
        omega
      rw [hsleeps, Nat.mul_zero, Nat.add_zero]
  | case3 now hbusy hdeadline ih =>
      have hsleeps : sleeps (deadline - now) = sleeps (deadline - (now + 50)) + 1 := by
        unfold sleeps
        omega
      have htime : now + 50 + 50 * sleeps (deadline - (now + 50)) =
          now + 50 * (sleeps (deadline - (now + 50)) + 1) := by
        omega
      rw [ih h, hsleeps, htime]

/-! ## The whole call -/

variable {schedule : Schedule} {request : Request} {start : Nat}

theorem acquire_of_acquired {now : Nat} (htimed : request.timed = true)
    (hlocal : acquireLocal schedule.gates start = some now)
    (hdb : (poll request schedule.otherProcess (now + request.timeoutMs.getD 0) now).outcome =
      .ok ()) :
    acquire schedule request start =
      some (poll request schedule.otherProcess (now + request.timeoutMs.getD 0) now) := by
  simp [acquire, acquireDb, hlocal, htimed, hdb]

theorem acquire_of_timedOut {now : Nat} {e : Err} (htimed : request.timed = true)
    (hlocal : acquireLocal schedule.gates start = some now)
    (hdb : (poll request schedule.otherProcess (now + request.timeoutMs.getD 0) now).outcome =
      .error e) :
    acquire schedule request start =
      some ⟨now + 50 * sleeps (request.timeoutMs.getD 0), .error request.timeoutError, {}⟩ := by
  have hpoll := poll_timedOut hdb
  rw [Nat.add_sub_cancel_left] at hpoll
  simp [acquire, acquireDb, hlocal, htimed, hpoll, releaseLocal]

/-- While the key is held by others, the loop behind the gate ends with the timeout. -/
theorem timedOut_of_held {now : Nat} (htimed : request.timed = true)
    (hlocal : acquireLocal schedule.gates start = some now)
    (hheld : ∀ t, start ≤ t → t ≤ now + 50 * sleeps (request.timeoutMs.getD 0) →
      HeldByOthers schedule request start t) :
    ∃ e, (poll request schedule.otherProcess (now + request.timeoutMs.getD 0) now).outcome =
      .error e := by
  cases hdb : (poll request schedule.otherProcess (now + request.timeoutMs.getD 0) now).outcome with
  | error e => exact ⟨e, rfl⟩
  | ok _ =>
      obtain ⟨hfree, hle, htime, hfootprint⟩ := poll_acquired hdb
      rw [Nat.add_sub_cancel_left] at htime
      have hstart := Nat.le_trans (le_of_acquireLocal hlocal) hle
      rcases hheld _ hstart htime with hother | ⟨-, hgate⟩
      · rw [hfree] at hother
        cases hother
      · refine absurd ⟨⟨now, hlocal, hle⟩, fun settled hsettled hnone => ?_⟩ hgate
        obtain rfl := Option.some.inj
          ((acquire_of_acquired htimed hlocal hdb).symm.trans hsettled)
        have hkept := congrArg Footprint.gate hfootprint
        exact absurd (hkept.symm.trans hnone) (by decide)

theorem honours_iff (htimed : request.timed = true)
    (hheld : ∀ t, start ≤ t → t ≤ start + request.timeoutMs.getD 0 + 50 →
      HeldByOthers schedule request start t) :
    Honours schedule request start ↔ ResolvedInTime schedule request start := by
  have hsleeps : 50 * sleeps (request.timeoutMs.getD 0) ≤ request.timeoutMs.getD 0 + 50 := by
    unfold sleeps
    omega
  have hsleeps' : 50 * sleeps (request.timeoutMs.getD 0) ≤
      start + request.timeoutMs.getD 0 + 50 := by
    omega
  have hgates := acquireLocal_le_iff schedule.gates start
    (start + request.timeoutMs.getD 0 + 50 - 50 * sleeps (request.timeoutMs.getD 0))
  constructor
  · rintro ⟨settled, hacquire, houtcome, htime, -⟩ gate hgate
    obtain ⟨now, hlocal, -⟩ := Option.bind_eq_some_iff.mp hacquire
    cases hpoll : (poll request schedule.otherProcess (now + request.timeoutMs.getD 0)
        now).outcome with
    | ok _ =>
        obtain rfl := Option.some.inj
          ((acquire_of_acquired htimed hlocal hpoll).symm.trans hacquire)
        rw [hpoll] at houtcome
        cases houtcome
    | error e =>
        obtain rfl := Option.some.inj
          ((acquire_of_timedOut htimed hlocal hpoll).symm.trans hacquire)
        obtain ⟨resolved, rfl, hle⟩ :=
          (hgates.mp ⟨now, hlocal, Nat.le_sub_of_add_le htime⟩).2 gate hgate
        exact ⟨resolved, rfl, Nat.add_le_of_le_sub hsleeps' hle⟩
  · intro hresolved
    obtain ⟨now, hlocal, hnow⟩ := hgates.mpr ⟨by omega, fun gate hgate => by
      obtain ⟨resolved, rfl, hle⟩ := hresolved gate hgate
      exact ⟨resolved, rfl, Nat.le_sub_of_add_le hle⟩⟩
    have htime : now + 50 * sleeps (request.timeoutMs.getD 0) ≤
        start + request.timeoutMs.getD 0 + 50 := by
      omega
    obtain ⟨e, hpoll⟩ := timedOut_of_held htimed hlocal fun t hstart ht =>
      hheld t hstart (Nat.le_trans ht htime)
    exact ⟨_, acquire_of_timedOut htimed hlocal hpoll, rfl, htime, rfl⟩

namespace Sample

/-- Another process keeps the key; a command of the same process has it for 20 ms. -/
def keptOutside : Schedule where
  gates := [some 20]
  sameProcess := fun t => decide (t < 20)
  otherProcess := fun _ => true
  granted := fun _ => none

/-- A command of the same process keeps the key. -/
def keptInside : Schedule where
  gates := [none]
  sameProcess := fun _ => true
  otherProcess := fun _ => false
  granted := fun _ => none

def deposit : Request := ⟨"Account", .string "a-1", some 120⟩

theorem honours_keptOutside : Honours keptOutside deposit 0 := by
  refine (honours_iff rfl fun _ _ _ => .inl rfl).mpr fun gate hgate => ?_
  exact ⟨20, List.mem_singleton.mp hgate, by decide⟩

/-- With a holder in the same process that does not end, `acquire` waits on. -/
theorem not_honours_keptInside :
    ¬ ∀ (schedule : Schedule) (request : Request) (start : Nat), request.timed = true →
      (∀ t, start ≤ t → t ≤ start + request.timeoutMs.getD 0 + 50 →
        HeldByOthers schedule request start t) →
      Honours schedule request start := by
  intro hall
  obtain ⟨settled, hacquire, -⟩ := hall keptInside deposit 0 rfl fun t _ _ => by
    refine .inr ⟨rfl, ?_⟩
    rintro ⟨⟨now, hlocal, -⟩, -⟩
    cases hlocal
  cases hacquire

end Sample

end Noddde.Adapters.PostgresLocker
