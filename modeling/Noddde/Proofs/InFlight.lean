import Noddde.Proofs.Shutdown
/-!
# Shutdown and the work under way

An operation that was accepted before the shutdown goes on as if there were none until
the timeout elapses, except that a call which its code makes of the domain itself is
refused from then on, and that a timeout for which `setTimeout` cannot wait ends early.
-/

namespace Noddde.Shutdown

variable {infrastructure : Infrastructure} {domain next : Domain} {action : Action}

/-- No operation under way calls a method of the domain that is shutting down;
through the command bus it may dispatch at any time. -/
def Undisturbed (domain : Domain) : Action → Prop
  | .call (some _) _ _ => domain.shuttingDown = false
  | _ => True

/-- A refusal of somebody who is not an operation under way. -/
def Observation.fromOutside : Observation → Bool
  | .refused none _ => true
  | _ => false

instance (domain : Domain) : DecidablePred (Undisturbed domain)
  | .call (some _) _ _ => inferInstanceAs (Decidable (_ = _))
  | .call none _ _ | .dispatchCommand _ | .dispatchEvent _ | .resume .. | .shutdown _
  | .returnShutdown | .tick _ | .timeOut _ | .resumeShutdown .. =>
      inferInstanceAs (Decidable True)

def Calm (domain : Domain) (action : Action) : Prop :=
  Undisturbed domain action ∧ TimerWaits domain action ∧ ¬ domain.Elapsed

instance (domain : Domain) (action : Action) : Decidable (Calm domain action) :=
  inferInstanceAs (Decidable (_ ∧ _ ∧ _))

namespace Domain

/-- What the operations have to do with: the domain as it is if nobody calls
`shutdown` and nobody makes the calls that were refused from outside. -/
def withoutShutdown (domain : Domain) : Domain where
  now := domain.now
  activeOperations := domain.activeOperations
  running := domain.running
  accepted := domain.accepted
  history := domain.history.filter fun o => !o.fromOutside

theorem withoutShutdown_note {o : Observation} (ho : o.fromOutside = false) :
    (domain.note o).withoutShutdown = domain.withoutShutdown.note o := by
  simp [withoutShutdown, note, ho]

theorem withoutShutdown_refused (method : Method) :
    (domain.note (.refused none method)).withoutShutdown = domain.withoutShutdown := by
  simp [withoutShutdown, note, Observation.fromOutside]

theorem withoutShutdown_settle (id : Nat) (outcome : Outcome) :
    (domain.settle id outcome).withoutShutdown = domain.withoutShutdown.settle id outcome := by
  obtain ⟨mark, -, heq⟩ := settle_cases domain id outcome
  rw [heq]
  rfl

theorem withoutShutdown_call (h : domain.shuttingDown = false) (caller : Option Nat)
    (method : Method) (inScope : Bool) :
    (domain.call caller method inScope).withoutShutdown =
      domain.withoutShutdown.call caller method inScope := by
  simp only [call, acquireOperation, h, withoutShutdown, Bool.false_eq_true, if_false]
  split_ifs
  · exact withoutShutdown_settle _ _
  · rfl

theorem withoutShutdown_resume (operation : Operation) (outcome : Outcome) :
    (domain.resume operation outcome).withoutShutdown =
      domain.withoutShutdown.resume operation outcome := by
  unfold resume
  cases operation.point.resume outcome with
  | inl point => rfl
  | inr outcome =>
      simp only
      rw [withoutShutdown_settle, withoutShutdown_note rfl]

theorem withoutShutdown_drainRelay (i : Nat) :
    (domain.drainRelay infrastructure i).withoutShutdown = domain.withoutShutdown := by
  unfold drainRelay
  split_ifs <;> rfl

theorem withoutShutdown_shutdown (timeoutMs : Option Milliseconds) :
    (domain.shutdown infrastructure timeoutMs).withoutShutdown = domain.withoutShutdown := by
  obtain ⟨promise, -, heq⟩ | ⟨-, -, heq⟩ | ⟨-, -, heq⟩ :=
    shutdown_cases infrastructure domain timeoutMs
  · rw [heq]
    rfl
  · rw [heq]
    rfl
  · rw [heq]
    exact withoutShutdown_drainRelay _

theorem withoutShutdown_resumeShutdown {i : Nat} {sequence : Sequence} {outcome : Outcome}
    (h : domain.resumeShutdown infrastructure i sequence outcome = some next) :
    next.withoutShutdown = domain.withoutShutdown := by
  obtain ⟨-, rfl | rfl | ⟨names, rfl⟩ | ⟨error, rfl⟩⟩ := resumeShutdown_cases h
  · exact withoutShutdown_drainRelay i
  · rfl
  · cases names <;> rfl
  · rfl

end Domain

/-! ## Simulation -/

/-- While an operation runs and the timer has not fired, the event bus is open. -/
theorem closed_eq_nil (h : domain.Inv) (hrunning : domain.running ≠ [])
    (htimedOut : ¬ domain.TimedOut) : domain.closed = [] := by
  by_contra hclosed
  rcases (h.closed hclosed).2 with hnil | hfired
  · exact hrunning hnil
  · exact htimedOut hfired

/-- The actions of everybody but the shutdown. -/
def Ordinary : Action → Prop
  | .shutdown _ => False
  | .returnShutdown => False
  | .timeOut _ => False
  | .resumeShutdown _ _ => False
  | _ => True

/-- A step of the domain is a step of the domain without shutdown, or none. -/
theorem withoutShutdown_step (h : domain.Inv) (htimedOut : ¬ domain.TimedOut)
    (hundisturbed : Undisturbed domain action)
    (hstep : step infrastructure domain action = some next) :
    next.withoutShutdown = domain.withoutShutdown ∨
      Ordinary action ∧
        step infrastructure domain.withoutShutdown action = some next.withoutShutdown := by
  cases action with
  | call caller method inScope =>
      cases caller with
      | none =>
          obtain rfl := Option.some.inj hstep
          cases hstopped : domain.shuttingDown with
          | false =>
              refine .inr ⟨trivial, ?_⟩
              rw [Domain.withoutShutdown_call hstopped]
              rfl
          | true =>
              left
              obtain ⟨-, heq⟩ | ⟨hoff, -⟩ := Domain.call_cases domain none method inScope
              · rw [heq, Domain.withoutShutdown_refused]
              · exact absurd (hstopped.symm.trans hoff) (by decide)
      | some id =>
          obtain ⟨operation, hfind, hnext⟩ := Option.bind_eq_some_iff.mp hstep
          obtain rfl := Option.some.inj hnext
          refine .inr ⟨trivial, Option.bind_eq_some_iff.mpr ⟨operation, hfind, ?_⟩⟩
          rw [Domain.withoutShutdown_call hundisturbed]
  | dispatchCommand id =>
      obtain ⟨operation, hfind, hnext⟩ := Option.bind_eq_some_iff.mp hstep
      obtain rfl := Option.some.inj hnext
      refine .inr ⟨trivial, Option.bind_eq_some_iff.mpr ⟨operation, hfind, ?_⟩⟩
      rw [Domain.withoutShutdown_note rfl]
  | dispatchEvent id =>
      obtain ⟨operation, hfind, hnext⟩ := Option.bind_eq_some_iff.mp hstep
      obtain rfl := Option.some.inj hnext
      have hopen := closed_eq_nil h
        (List.ne_nil_of_mem (Domain.mem_of_find hfind).1) htimedOut
      refine .inr ⟨trivial, Option.bind_eq_some_iff.mpr ⟨operation, hfind, ?_⟩⟩
      rw [Domain.withoutShutdown_note rfl, hopen]
      rfl
  | resume id outcome =>
      obtain ⟨-, operation, hfind, rfl⟩ := step_resume.mp hstep
      refine .inr ⟨trivial, step_resume.mpr ⟨rfl, operation, hfind, ?_⟩⟩
      rw [Domain.withoutShutdown_resume]
  | shutdown timeoutMs =>
      obtain rfl := Option.some.inj hstep
      exact .inl (Domain.withoutShutdown_shutdown timeoutMs)
  | returnShutdown =>
      obtain ⟨i, rest, -, rfl⟩ := Domain.returnShutdown_eq_some.mp hstep
      exact .inl rfl
  | tick ms =>
      obtain rfl := Option.some.inj hstep
      exact .inr ⟨trivial, rfl⟩
  | timeOut i =>
      obtain ⟨-, sequence, due, -, -, -, -, rfl⟩ := step_timeOut.mp hstep
      exact .inl rfl
  | resumeShutdown i outcome =>
      obtain ⟨-, sequence, -, hnext⟩ := step_resumeShutdown.mp hstep
      exact .inl (Domain.withoutShutdown_resumeShutdown hnext)

/-- As long as the timeout has not elapsed, and could be waited for, and no operation under
way calls the domain while it shuts down, none of their dispatches is refused, and they run
as in a domain of which no shutdown is requested. -/
theorem inFlight_unaffected (h : Machine.Run (step infrastructure) Calm {} domain) :
    (∀ id method, .refused (some id) method ∉ domain.history) ∧
    ∃ ordinary, Machine.Run (step infrastructure) (fun _ action => Ordinary action) {} ordinary ∧
      ordinary.running = domain.running ∧
      ordinary.history = domain.history.filter fun o => !o.fromOutside := by
  constructor
  · apply h.inv (I := fun domain => ∀ id method, .refused (some id) method ∉ domain.history)
      (fun _ _ => List.not_mem_nil)
    intro domain action next hnone hcalm hstep id method hmem
    obtain ⟨new, heq, hexpected⟩ := history_of_step hstep
    rw [heq] at hmem
    rcases List.mem_append.mp hmem with hnew | hold
    · obtain ⟨hstopped, inScope, rfl⟩ := (hexpected _ hnew).2 _ _ rfl
      exact absurd (hstopped.symm.trans hcalm.1) (by decide)
    · exact hnone id method hold
  · have hsimulated : ∃ ordinary,
        Machine.Run (step infrastructure) (fun _ action => Ordinary action) {} ordinary ∧
          (domain.Inv ∧ Timely domain ∧ ordinary = domain.withoutShutdown) := by
      apply h.simulate (R := fun domain ordinary => domain.Inv ∧ Timely domain ∧
        ordinary = domain.withoutShutdown) ⟨Domain.inv_start, ⟨nofun, nofun⟩, rfl⟩
      rintro domain action next _ ⟨hinv, htimely, rfl⟩ ⟨hundisturbed, hwaits, helapsed⟩ hstep
      have htimedOut : ¬ domain.TimedOut := fun hfired =>
        helapsed (elapsed_of_timedOut hinv htimely hfired)
      have hnext := hinv.step hstep
      have htimely' := htimely.step hwaits hstep
      rcases withoutShutdown_step hinv htimedOut hundisturbed hstep with heq | ⟨hord, hordinary⟩
      · exact ⟨_, .refl, hnext, htimely', heq.symm⟩
      · exact ⟨_, .tail .refl hord hordinary, hnext, htimely', rfl⟩
    obtain ⟨_, hrun, -, -, rfl⟩ := hsimulated
    exact ⟨_, hrun, rfl, rfl⟩

/-- A scope that has dispatched a command through the domain before the shutdown is
requested, and on the command bus and the event bus behind it. -/
def earlyDispatch : List Action :=
  [.call none .withUnitOfWork false, .call (some 0) .dispatchCommand true, .resume 1 (.ok ()),
    .shutdown (some (.finite 5)), .call none .dispatchQuery false, .dispatchCommand 0, .tick 4,
    .resume 0 (.ok ()), .resume 0 (.ok ()), .resume 0 (.ok ()), .dispatchEvent 0]

/-- Nothing of it is refused, its event reaches the handlers, and it runs so without the
shutdown too. -/
theorem inFlight_unaffected_scope :
    ∃ domain, Machine.play (step ⟨false, []⟩) earlyDispatch {} = some domain ∧
      .commandBus 0 ∈ domain.history ∧ .eventBus 0 true ∈ domain.history ∧
      (∀ id method, .refused (some id) method ∉ domain.history) ∧
      ∃ ordinary, Machine.Run (step ⟨false, []⟩) (fun _ action => Ordinary action) {} ordinary ∧
        ordinary.running = domain.running ∧ .eventBus 0 true ∈ ordinary.history := by
  have hplay : (Machine.playMeeting (step ⟨false, []⟩) Calm earlyDispatch {}).any
      (fun domain => .commandBus 0 ∈ domain.history ∧ .eventBus 0 true ∈ domain.history) := by
    decide +kernel
  obtain ⟨domain, hdomain, hfacts⟩ := (Option.any_eq_true _ _).mp hplay
  obtain ⟨hcommand, hevent⟩ := of_decide_eq_true hfacts
  obtain ⟨hnone, ordinary, hrun, hrunning, hhistory⟩ :=
    inFlight_unaffected (Machine.run_of_playMeeting hdomain)
  refine ⟨domain, Machine.play_of_playMeeting hdomain, hcommand, hevent, hnone, ordinary, hrun,
    hrunning, ?_⟩
  rw [hhistory]
  exact List.mem_filter.mpr ⟨hevent, rfl⟩

/-- What the function of the scope gets for its dispatch. -/
def shutdownError : Err :=
  .error "Domain is shutting down and no longer accepts commands or queries"

/-- A scope is accepted, then the shutdown is requested, and then the function of the
scope dispatches its first command, whose rejection it passes on. -/
def lateDispatch : List Action :=
  [.call none .withUnitOfWork false, .shutdown none, .call (some 0) .dispatchCommand true,
    .resume 0 (.error shutdownError), .resume 0 (.ok ()), .resume 0 (.ok ())]

/-- A command is under way when a shutdown is requested with a timeout of 2^31
milliseconds, whose timer fires after one. -/
def longTimeout : List Action :=
  [.call none .dispatchCommand false, .shutdown (some (.finite 2147483648)), .tick 1,
    .timeOut 0, .resumeShutdown 0 (.ok ()), .dispatchEvent 0]

/-- The command of the scope is refused and the scope rolls back, and the event of the
command finds no handlers, although no timeout has elapsed. -/
theorem inFlight_refused :
    (∃ domain, Machine.play (step ⟨false, []⟩) lateDispatch {} = some domain ∧
      ¬ domain.Elapsed ∧
      .refused (some 0) .dispatchCommand ∈ domain.history ∧
      .settled 0 (.error shutdownError) ∈ domain.history) ∧
    ∃ domain, Machine.play (step ⟨false, []⟩) longTimeout {} = some domain ∧
      ¬ domain.Elapsed ∧ .eventBus 0 false ∈ domain.history := by
  have hlate : (Machine.play (step ⟨false, []⟩) lateDispatch {}).any (fun domain =>
      ¬ domain.Elapsed ∧ .refused (some 0) .dispatchCommand ∈ domain.history ∧
      .settled 0 (.error shutdownError) ∈ domain.history) := by decide +kernel
  have hlong : (Machine.play (step ⟨false, []⟩) longTimeout {}).any (fun domain =>
      ¬ domain.Elapsed ∧ .eventBus 0 false ∈ domain.history) := by decide +kernel
  obtain ⟨domain, hdomain, hfacts⟩ := (Option.any_eq_true _ _).mp hlate
  obtain ⟨domain', hdomain', hfacts'⟩ := (Option.any_eq_true _ _).mp hlong
  exact ⟨⟨domain, hdomain, of_decide_eq_true hfacts⟩, domain', hdomain',
    of_decide_eq_true hfacts'⟩

end Noddde.Shutdown
