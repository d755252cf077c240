import Noddde.Brokers.FanOut
import Noddde.Async.Machine
import Noddde.Adapters.Sample
import Noddde.Data.JsonRoundTrip
/-!
# The fan-out law

When `_handleMessage` calls every handler, settles after all of them, and rejects
if and only if one of them has failed.
-/

namespace Noddde.Brokers

variable {N α : Type} [Json.Number N]

/-! ## Handlers -/

namespace Handler

def Throws (handler : Handler) : Prop := ∃ reason, handler.behaviour = .throws reason

def ReturnsSettled (handler : Handler) : Prop :=
  ∃ settlement, handler.behaviour = .returns settlement true

def Fails (handler : Handler) : Prop := ∃ reason, handler.behaviour.settlement = .error reason

def promise (handler : Handler) : Promise where
  handlerName := handler.name
  settlement := handler.behaviour.settlement
  settled :=
    match handler.behaviour with
    | .throws _ => true
    | .returns _ atOnce => atOnce

theorem Throws.fails {handler : Handler} (h : handler.Throws) : handler.Fails := by
  obtain ⟨reason, hbehaviour⟩ := h
  exact ⟨reason, by rw [hbehaviour]; rfl⟩

theorem ReturnsSettled.not_throws {handler : Handler} (h : handler.ReturnsSettled) :
    ¬ handler.Throws := by
  obtain ⟨settlement, hreturns⟩ := h
  intro hthrows
  obtain ⟨reason, hthrows⟩ := hthrows
  rw [hreturns] at hthrows
  cases hthrows

theorem returnsSettled_iff {handler : Handler} (h : ¬ handler.Throws) :
    handler.ReturnsSettled ↔ handler.promise.settled = true := by
  unfold ReturnsSettled promise
  cases hbehaviour : handler.behaviour with
  | throws reason => exact absurd ⟨reason, hbehaviour⟩ h
  | returns settlement atOnce => simp

end Handler

variable {handlers before after : List Handler} {handler : Handler} {reason : Reason}

theorem callAll_append (hbefore : ∀ h ∈ before, ¬ h.Throws) :
    callAll (before ++ after) =
      (before.map Handler.promise ++ (callAll after).1, (callAll after).2) := by
  induction before with
  | nil => rfl
  | cons first rest ih =>
      obtain ⟨hfirst, hrest⟩ := List.forall_mem_cons.mp hbefore
      rw [List.cons_append, callAll]
      cases hbehaviour : first.behaviour with
      | throws reason => exact absurd ⟨reason, hbehaviour⟩ hfirst
      | returns settlement atOnce =>
          simp only [ih hrest, List.map_cons, List.cons_append, Handler.promise, hbehaviour,
            Behaviour.settlement]

theorem calledBy_append (hbefore : ∀ h ∈ before, ¬ h.Throws) :
    calledBy (before ++ after) = before ++ calledBy after := by
  induction before with
  | nil => rfl
  | cons first rest ih =>
      obtain ⟨hfirst, hrest⟩ := List.forall_mem_cons.mp hbefore
      rw [List.cons_append, calledBy]
      cases hbehaviour : first.behaviour with
      | throws reason => exact absurd ⟨reason, hbehaviour⟩ hfirst
      | returns settlement atOnce => simp only [ih hrest, List.cons_append]

theorem callAll_of_returns (h : ∀ handler ∈ handlers, ¬ handler.Throws) :
    callAll handlers = (handlers.map Handler.promise, none) := by
  have hall : callAll (handlers ++ []) = _ := callAll_append h
  simpa [callAll] using hall

theorem calledBy_of_returns (h : ∀ handler ∈ handlers, ¬ handler.Throws) :
    calledBy handlers = handlers := by
  have hall : calledBy (handlers ++ []) = _ := calledBy_append h
  simpa [calledBy] using hall

theorem callAll_of_throws (hbefore : ∀ h ∈ before, ¬ h.Throws)
    (h : handler.behaviour = .throws reason) :
    callAll (before ++ handler :: after) = (before.map Handler.promise, some reason) := by
  rw [callAll_append hbefore, callAll, h, List.append_nil]

theorem calledBy_of_throws (hbefore : ∀ h ∈ before, ¬ h.Throws)
    (h : handler.behaviour = .throws reason) :
    calledBy (before ++ handler :: after) = before ++ [handler] := by
  rw [calledBy_append hbefore, calledBy, h]

/-- Either no handler throws, or there is a first one that does. -/
theorem throws_cases (handlers : List Handler) :
    (∀ h ∈ handlers, ¬ h.Throws) ∨
      ∃ before handler after reason, handlers = before ++ handler :: after ∧
        (∀ h ∈ before, ¬ h.Throws) ∧ handler.behaviour = .throws reason := by
  induction handlers with
  | nil => exact .inl (by simp)
  | cons first rest ih =>
      cases hbehaviour : first.behaviour with
      | throws reason => exact .inr ⟨[], first, rest, reason, rfl, by simp, hbehaviour⟩
      | returns settlement atOnce =>
          have hfirst : ¬ first.Throws := by
            intro hthrows
            obtain ⟨reason, hthrows⟩ := hthrows
            rw [hbehaviour] at hthrows
            cases hthrows
          cases ih with
          | inl hnone => exact .inl (List.forall_mem_cons.mpr ⟨hfirst, hnone⟩)
          | inr hfound =>
              obtain ⟨before, handler, after, reason, rfl, hbefore, hthrows⟩ := hfound
              exact .inr ⟨first :: before, handler, after, reason, rfl,
                List.forall_mem_cons.mpr ⟨hfirst, hbefore⟩, hthrows⟩

/-! ## The loop over the results -/

theorem report_undefined {event : Json N} {handlerName : String} :
    report event handlerName .undefined = .ok () ↔ printName event = .ok () := by
  unfold report printName
  cases hname : eventName event with
  | error e =>
      simp only [Reason.print]
      split_ifs <;> simp [bind, Except.bind]
  | ok name =>
      simp only [Reason.print]
      split_ifs <;> simp [bind, Except.bind, pure, Except.pure]

theorem findFirstRejection_ok_iff {event : Json N} {result : α} {first : Reason}
    {promises : List Promise} :
    (∃ r, (findFirstRejection event first promises).bind (rethrow result) = .ok r) ↔
      first = .undefined ∧ ∀ promise ∈ promises, ∀ err, promise.settlement = .error err →
        err = .undefined ∧ printName event = .ok () := by
  induction promises generalizing first with
  | nil =>
      simp only [findFirstRejection, Except.bind, rethrow]
      split_ifs with h <;> simp [h]
  | cons promise rest ih =>
      rw [List.forall_mem_cons, findFirstRejection]
      cases hsettlement : promise.settlement with
      | ok u => simp [ih]
      | error err =>
          simp only [bind]
          have herr : (∀ e, Except.error err = (Except.error e : Settlement) →
              e = .undefined ∧ printName event = .ok ()) ↔
                err = .undefined ∧ printName event = .ok () := by simp
          rw [herr]
          cases hreport : report event promise.handlerName err with
          | error e =>
              have hnot : ¬ (err = .undefined ∧ printName event = .ok ()) := by
                intro h
                rw [h.1, report_undefined.mpr h.2] at hreport
                cases hreport
              simp [Except.bind, hnot]
          | ok u =>
              have hname (h : err = .undefined) : printName event = .ok () := by
                rw [h] at hreport
                exact report_undefined.mp hreport
              have ih := @ih (if first = .undefined then err else first)
              simp only [Except.bind] at ih ⊢
              rw [ih]
              split_ifs with hfirst
              · constructor
                · intro h
                  exact ⟨hfirst, ⟨h.1, hname h.1⟩, h.2⟩
                · intro h
                  exact ⟨h.2.1.1, h.2.2⟩
              · constructor
                · intro h
                  exact absurd h.1 hfirst
                · intro h
                  exact absurd h.1 hfirst

/-- The call resolves if and only if no promise is rejected, or each that is rejected
is so with `undefined`. -/
theorem finish_ok_iff {event : Json N} {result : α} {promises : List Promise} :
    (∃ r, finish result event promises = .ok r) ↔
      ∀ promise ∈ promises, ∀ err, promise.settlement = .error err →
        err = .undefined ∧ printName event = .ok () := by
  unfold finish
  rw [findFirstRejection_ok_iff]
  simp

/-! ## The law -/

/-- A call of `_handleMessage` calls every handler once, settles after all of them and
rejects if and only if one of them has failed. -/
structure FansOut (step : Call α → Action → Option (Call α)) (initial : Call α)
    (handlers : List Handler) : Prop where
  called : ∀ {call}, Machine.Reaches step initial call → call.called = handlers
  afterAll : ∀ {call}, Machine.Reaches step initial call → call.outcome.isSome →
    ∀ promise ∈ call.promises, promise.settled = true
  rejects : ∀ {call outcome}, Machine.Reaches step initial call → call.outcome = some outcome →
    ((∃ reason, outcome = .error reason) ↔ ∃ handler ∈ handlers, handler.Fails)
  settles : ∀ {call}, Machine.Reaches step initial call →
    (∀ action, step call action = none) → call.outcome.isSome

/-- No handler throws before it returns, or only the last one does, and what the others
return has settled by then. -/
def ThrowsLast (handlers : List Handler) : Prop :=
  (∀ handler ∈ handlers, ¬ handler.Throws) ∨
    ∀ handler ∈ handlers.dropLast, handler.ReturnsSettled

/-- If handlers fail, one of them throws, or fails with another reason than `undefined`,
or the name of the event cannot be printed. -/
def Noticed (event : Json N) (handlers : List Handler) : Prop :=
  (∃ handler ∈ handlers, handler.Fails) →
    (∃ handler ∈ handlers, handler.Throws) ∨
      (∃ handler ∈ handlers, ∃ reason, reason ≠ .undefined ∧
        handler.behaviour.settlement = .error reason) ∨
      printName event ≠ .ok ()

variable {event : Json N} {result : α} {skip : Except Reason α} {call next : Call α}

theorem step_cases {action : Action} (h : call.step result event action = some next) :
    (∃ i, next = { call with promises := settle i call.promises }) ∨
      call.outcome = none ∧ (∀ promise ∈ call.promises, promise.settled = true) ∧
        next = { call with outcome := some (finish result event call.promises) } := by
  cases action with
  | settle i =>
      simp only [Call.step] at h
      split at h
      · split_ifs at h
        exact .inl ⟨i, (Option.some.inj h).symm⟩
      · cases h
  | resume =>
      simp only [Call.step] at h
      split_ifs at h with hready
      exact .inr ⟨Option.isNone_iff_eq_none.mp hready.1, hready.2, (Option.some.inj h).symm⟩

@[simp] theorem length_settle (i : Nat) (promises : List Promise) :
    (settle i promises).length = promises.length := List.length_modify ..

/-- The loop over the results does not read whether a promise has settled. -/
theorem findFirstRejection_settle (i : Nat) (first : Reason) (promises : List Promise) :
    findFirstRejection event first (settle i promises) =
      findFirstRejection event first promises := by
  induction promises generalizing i first with
  | nil => rw [settle, List.modify_nil]
  | cons promise rest ih =>
      cases i with
      | zero => rfl
      | succ i =>
          have hcons : settle (i + 1) (promise :: rest) = promise :: settle i rest := rfl
          rw [hcons, findFirstRejection, findFirstRejection]
          cases promise.settlement with
          | ok u => exact ih i first
          | error err => simp only [ih]

theorem settled_settle {i : Nat} {promises : List Promise}
    (h : ∀ promise ∈ promises, promise.settled = true) :
    ∀ promise ∈ settle i promises, promise.settled = true := by
  intro promise hmem
  unfold settle at hmem
  obtain ⟨j, hj⟩ := List.mem_iff_getElem?.mp hmem
  rw [List.getElem?_modify] at hj
  split_ifs at hj
  · obtain ⟨old, hold, rfl⟩ := Option.map_eq_some_iff.mp hj
    rfl
  · simp only [Option.map_eq_map, Option.map_id_fun', id_eq] at hj
    exact h promise (List.mem_of_getElem? hj)

/-- What a run keeps, from a call that awaits its handlers. -/
structure Awaits (event : Json N) (result : α) (handlers : List Handler) (call : Call α) :
    Prop where
  called : call.called = handlers
  length : call.promises.length = handlers.length
  found : findFirstRejection event .undefined call.promises =
    findFirstRejection event .undefined (handlers.map Handler.promise)
  outcome : ∀ outcome, call.outcome = some outcome →
    (∀ promise ∈ call.promises, promise.settled = true) ∧
      outcome = finish result event (handlers.map Handler.promise)

theorem awaits_step {action : Action} (h : Awaits event result handlers call)
    (hstep : call.step result event action = some next) :
    Awaits event result handlers next := by
  cases step_cases hstep with
  | inl hsettle =>
      obtain ⟨i, rfl⟩ := hsettle
      refine ⟨h.called, (length_settle ..).trans h.length,
        (findFirstRejection_settle ..).trans h.found, fun outcome houtcome => ?_⟩
      obtain ⟨hsettled, hfinish⟩ := h.outcome outcome houtcome
      exact ⟨settled_settle hsettled, hfinish⟩
  | inr hresume =>
      obtain ⟨-, hsettled, rfl⟩ := hresume
      refine ⟨h.called, h.length, h.found, fun outcome houtcome => ⟨hsettled, ?_⟩⟩
      cases houtcome
      rw [finish, finish, h.found]

theorem awaits_start (h : ∀ handler ∈ handlers, ¬ handler.Throws) :
    Awaits event result handlers (start skip handlers (some event)) := by
  constructor
  · exact calledBy_of_returns h
  · simp [start, callAll_of_returns h]
  · simp [start, callAll_of_returns h]
  · simp [start, callAll_of_returns h]

/-- All promises of a call that has not settled may settle before it resumes. -/
theorem exists_all_settled (call : Call α) (n : Nat) :
    ∃ later, Machine.Reaches (Call.step result event) call later ∧
      later.outcome = call.outcome ∧
      ∀ i < n, ∀ promise, later.promises[i]? = some promise → promise.settled = true := by
  induction n with
  | zero => exact ⟨call, .refl, rfl, fun i hi => absurd hi (Nat.not_lt_zero i)⟩
  | succ n ih =>
      obtain ⟨later, hrun, houtcome, hsettled⟩ := ih
      by_cases hdone : ∀ promise, later.promises[n]? = some promise → promise.settled = true
      · refine ⟨later, hrun, houtcome, fun i hi promise hpromise => ?_⟩
        cases Nat.lt_succ_iff_lt_or_eq.mp hi with
        | inl hlt => exact hsettled i hlt promise hpromise
        | inr heq => exact hdone promise (heq ▸ hpromise)
      · push Not at hdone
        obtain ⟨promise, hpromise, hpending⟩ := hdone
        have hstep : later.step result event (.settle n) =
            some { later with promises := settle n later.promises } := by
          simp only [Call.step, hpromise]
          exact if_neg hpending
        refine ⟨_, hrun.tail trivial hstep, houtcome, fun i hi promise hpromise => ?_⟩
        simp only [settle, List.getElem?_modify] at hpromise
        split_ifs at hpromise with heq
        · obtain ⟨old, hold, rfl⟩ := Option.map_eq_some_iff.mp hpromise
          rfl
        · simp only [Option.map_eq_map, Option.map_id_fun', id_eq] at hpromise
          exact hsettled i (by omega) promise hpromise

theorem settles_of_stuck (h : ∀ action, call.step result event action = none) :
    call.outcome.isSome := by
  by_contra hpending
  have hnone : call.outcome.isNone := by simpa using hpending
  have hsettled : ∀ promise ∈ call.promises, promise.settled = true := by
    intro promise hmem
    obtain ⟨i, hi⟩ := List.mem_iff_getElem?.mp hmem
    have hstuck := h (.settle i)
    simp only [Call.step, hi] at hstuck
    split_ifs at hstuck with hdone
    exact hdone
  have hstuck := h .resume
  simp only [Call.step] at hstuck
  rw [if_pos ⟨hnone, hsettled⟩] at hstuck
  cases hstuck

/-- Some promise is rejected in a way that the loop notices. -/
theorem noticed_iff (h : ∀ handler ∈ handlers, ¬ handler.Throws) :
    Noticed event handlers ↔
      ((∀ handler ∈ handlers, ∀ err, handler.behaviour.settlement = .error err →
        err = .undefined ∧ printName event = .ok ()) →
          ¬ ∃ handler ∈ handlers, handler.Fails) := by
  unfold Noticed
  constructor
  · intro hnoticed hall hfails
    cases hnoticed hfails with
    | inl hthrows =>
        obtain ⟨handler, hmem, hthrows⟩ := hthrows
        exact h handler hmem hthrows
    | inr hrest =>
        cases hrest with
        | inl hreason =>
            obtain ⟨handler, hmem, reason, hreason, hsettlement⟩ := hreason
            exact hreason (hall handler hmem reason hsettlement).1
        | inr hname =>
            obtain ⟨handler, hmem, reason, hsettlement⟩ := hfails
            exact hname (hall handler hmem reason hsettlement).2
  · intro hall hfails
    by_contra hnot
    push Not at hnot
    obtain ⟨-, hundefined, hname⟩ := hnot
    apply hall _ hfails
    intro handler hmem err hsettlement
    refine ⟨?_, hname⟩
    by_contra hne
    exact hundefined handler hmem err hne hsettlement

theorem fansOut_iff_of_returns (h : ∀ handler ∈ handlers, ¬ handler.Throws) :
    FansOut (Call.step result event) (start skip handlers (some event)) handlers ↔
      Noticed event handlers := by
  have hawaits {call} (hrun : Machine.Reaches (Call.step result event)
      (start skip handlers (some event)) call) : Awaits event result handlers call :=
    hrun.inv (awaits_start h) fun _ _ _ hinv _ hstep => awaits_step hinv hstep
  have hfinish : (∃ r, finish result event (handlers.map Handler.promise) = .ok r) ↔
      ∀ handler ∈ handlers, ∀ err, handler.behaviour.settlement = .error err →
        err = .undefined ∧ printName event = .ok () := by
    rw [finish_ok_iff, List.forall_mem_map]
    rfl
  rw [noticed_iff h]
  constructor
  · intro hlaw hall
    obtain ⟨later, hrun, houtcome, hsettled⟩ :
        ∃ later, Machine.Reaches (Call.step result event) (start skip handlers (some event))
            later ∧ later.outcome = (start skip handlers (some event)).outcome ∧
          ∀ i < handlers.length, ∀ promise, later.promises[i]? = some promise →
            promise.settled = true :=
      exists_all_settled _ _
    have hpending : later.outcome = none := by
      rw [houtcome]
      simp [start, callAll_of_returns h]
    have hlength : later.promises.length = handlers.length := (hawaits hrun).length
    have hall' : ∀ promise ∈ later.promises, promise.settled = true := by
      intro promise hmem
      obtain ⟨i, hi⟩ := List.mem_iff_getElem?.mp hmem
      apply hsettled i _ promise hi
      rw [← hlength]
      exact (List.getElem?_eq_some_iff.mp hi).1
    have hstep : later.step result event .resume =
        some { later with outcome := some (finish result event later.promises) } := by
      simp only [Call.step]
      exact if_pos ⟨Option.isNone_iff_eq_none.mpr hpending, hall'⟩
    have hresumed := hrun.tail trivial hstep
    obtain ⟨r, hr⟩ := hfinish.mpr hall
    rw [← hlaw.rejects hresumed rfl, ((hawaits hresumed).outcome _ rfl).2, hr]
    simp
  · intro hnoticed
    refine ⟨fun hrun => (hawaits hrun).called, fun hrun hsome => ?_,
      fun {call outcome} hrun houtcome => ?_, fun _ => settles_of_stuck⟩
    · obtain ⟨outcome, houtcome⟩ := Option.isSome_iff_exists.mp hsome
      exact ((hawaits hrun).outcome outcome houtcome).1
    · rw [((hawaits hrun).outcome outcome houtcome).2]
      constructor
      · intro hreason
        by_contra hfails
        have hall : ∀ handler ∈ handlers, ∀ err, handler.behaviour.settlement = .error err →
            err = .undefined ∧ printName event = .ok () :=
          fun handler hmem err herr => absurd ⟨handler, hmem, err, herr⟩ hfails
        obtain ⟨reason, hreason⟩ := hreason
        obtain ⟨r, hr⟩ := hfinish.mpr hall
        rw [hr] at hreason
        cases hreason
      · intro hfails
        cases houtcome : finish result event (handlers.map Handler.promise) with
        | error reason => exact ⟨reason, rfl⟩
        | ok r => exact absurd hfails (hnoticed (hfinish.mp ⟨r, houtcome⟩))

theorem fansOut_iff_of_throws (hbefore : ∀ h ∈ before, ¬ h.Throws)
    (h : handler.behaviour = .throws reason) :
    FansOut (Call.step result event)
        (start skip (before ++ handler :: after) (some event)) (before ++ handler :: after) ↔
      after = [] ∧ ∀ h ∈ before, h.ReturnsSettled := by
  have hstart : start skip (before ++ handler :: after) (some event) =
      { called := before ++ [handler]
        promises := before.map Handler.promise
        outcome := some (.error reason) } := by
    simp [start, callAll_of_throws hbefore h, calledBy_of_throws hbefore h]
  rw [hstart]
  constructor
  · intro hlaw
    have hcalled := hlaw.called .refl
    have hsettled := hlaw.afterAll .refl rfl
    constructor
    · simpa using hcalled.symm
    · intro first hmem
      apply (Handler.returnsSettled_iff (hbefore first hmem)).mpr
      exact hsettled _ (List.mem_map_of_mem hmem)
  · intro hcond
    obtain ⟨rfl, hreturns⟩ := hcond
    have hsettled : ∀ promise ∈ before.map Handler.promise, promise.settled = true := by
      rw [List.forall_mem_map]
      intro first hmem
      exact (Handler.returnsSettled_iff (hbefore first hmem)).mp (hreturns first hmem)
    -- every promise has settled, so the call takes no step
    have hstay {call : Call α} (hrun : Machine.Reaches (Call.step result event)
        { called := before ++ [handler]
          promises := before.map Handler.promise
          outcome := some (.error reason) } call) :
        call.called = before ++ [handler] ∧ call.outcome = some (.error reason) ∧
          ∀ promise ∈ call.promises, promise.settled = true := by
      apply hrun.inv (I := fun call => call.called = before ++ [handler] ∧
        call.outcome = some (.error reason) ∧ ∀ promise ∈ call.promises, promise.settled = true)
        ⟨rfl, rfl, hsettled⟩
      intro call action next hinv _ hstep
      cases step_cases hstep with
      | inl hsettle =>
          obtain ⟨i, rfl⟩ := hsettle
          exact ⟨hinv.1, hinv.2.1, settled_settle hinv.2.2⟩
      | inr hresume => rw [hinv.2.1] at hresume; cases hresume.1
    have hfails : ∃ h ∈ before ++ [handler], h.Fails :=
      ⟨handler, by simp, Handler.Throws.fails ⟨reason, h⟩⟩
    refine ⟨fun hrun => (hstay hrun).1, fun hrun _ => (hstay hrun).2.2,
      fun hrun houtcome => ?_, fun _ => settles_of_stuck⟩
    rw [(hstay hrun).2.1] at houtcome
    cases houtcome
    exact ⟨fun _ => hfails, fun _ => ⟨reason, rfl⟩⟩

/-- However its handlers interleave, a call settles with what the loop over their results
comes to. -/
theorem outcome_of_reaches {outcome : Except Reason α}
    (hrun : Machine.Reaches (Call.step result event) (start skip handlers (some event)) call)
    (houtcome : call.outcome = some outcome) :
    outcome = (fanOut event handlers).bind (rethrow result) := by
  cases throws_cases handlers with
  | inl hreturns =>
      have hawaits := hrun.inv (awaits_start hreturns)
        fun _ _ _ hinv _ hstep => awaits_step hinv hstep
      rw [(hawaits.outcome outcome houtcome).2, fanOut, callAll_of_returns hreturns, finish]
  | inr hthrows =>
      obtain ⟨before, handler, after, reason, rfl, hbefore, hthrows⟩ := hthrows
      have hstay : call.outcome = some (.error reason) := by
        apply hrun.inv (I := fun call => call.outcome = some (.error reason))
        · simp [start, callAll_of_throws hbefore hthrows]
        · intro call action next hinv _ hstep
          cases step_cases hstep with
          | inl hsettle => obtain ⟨i, rfl⟩ := hsettle; exact hinv
          | inr hresume => rw [hinv] at hresume; cases hresume.1
      rw [houtcome] at hstay
      rw [Option.some.inj hstay, fanOut, callAll_of_throws hbefore hthrows]
      rfl

/-- A call rejects only if a handler has failed. -/
theorem fails_of_fanOut {reason : Reason}
    (h : (fanOut event handlers).bind (rethrow result) = .error reason) :
    ∃ handler ∈ handlers, handler.Fails := by
  by_contra hnone
  have hreturns : ∀ handler ∈ handlers, ¬ handler.Throws :=
    fun handler hmem hthrows => hnone ⟨handler, hmem, hthrows.fails⟩
  have hok : ∃ r, finish result event (handlers.map Handler.promise) = .ok r := by
    rw [finish_ok_iff, List.forall_mem_map]
    intro handler hmem err herr
    exact absurd ⟨handler, hmem, err, herr⟩ hnone
  obtain ⟨r, hr⟩ := hok
  rw [fanOut, callAll_of_returns hreturns] at h
  rw [finish] at hr
  rw [hr] at h
  cases h

theorem throwsLast_append_iff (h : handler.behaviour = .throws reason) :
    ThrowsLast (before ++ handler :: after) ↔
      after = [] ∧ ∀ h ∈ before, h.ReturnsSettled := by
  have hthrows : handler.Throws := ⟨reason, h⟩
  unfold ThrowsLast
  cases after with
  | nil =>
      rw [List.dropLast_concat]
      constructor
      · intro hor
        cases hor with
        | inl hnone => exact absurd hthrows (hnone handler (by simp))
        | inr hall => exact ⟨rfl, hall⟩
      · intro hcond
        exact .inr hcond.2
  | cons next rest =>
      have hdrop : (before ++ handler :: next :: rest).dropLast =
          before ++ handler :: (next :: rest).dropLast := by
        rw [List.dropLast_append_of_ne_nil (by simp), List.dropLast_cons_of_ne_nil (by simp)]
      rw [hdrop]
      constructor
      · intro hor
        cases hor with
        | inl hnone => exact absurd hthrows (hnone handler (by simp))
        | inr hall => exact absurd hthrows (hall handler (by simp)).not_throws
      · intro hcond
        cases hcond.1

/-- A call of `_handleMessage` on an event fans out as it should if and only if no handler
throws too early and the failures are noticed. -/
theorem fansOut_iff :
    FansOut (Call.step result event) (start skip handlers (some event)) handlers ↔
      ThrowsLast handlers ∧ Noticed event handlers := by
  cases throws_cases handlers with
  | inl hnone =>
      rw [fansOut_iff_of_returns hnone]
      exact ⟨fun h => ⟨.inl hnone, h⟩, fun h => h.2⟩
  | inr hfound =>
      obtain ⟨before, handler, after, reason, rfl, hbefore, hthrows⟩ := hfound
      rw [fansOut_iff_of_throws hbefore hthrows, throwsLast_append_iff hthrows]
      have hnoticed : Noticed event (before ++ handler :: after) :=
        fun _ => .inl ⟨handler, by simp, reason, hthrows⟩
      exact ⟨fun h => ⟨h, hnoticed⟩, fun h => h.1⟩

/-! ## The three buses -/

/-- On a body that is JSON, each of the three buses fans out if and only if no handler
throws too early and the failures are noticed. -/
theorem buses_fan_out_iff {text : JsString} {event : Json N}
    (hparse : Json.parse text = some event) (handlers : List Handler) :
    (FansOut (KafkaEventBus.step N event) (KafkaEventBus.handleMessage N handlers text)
        handlers ↔ ThrowsLast handlers ∧ Noticed event handlers) ∧
      (FansOut (RabbitMqEventBus.step N event)
        (RabbitMqEventBus.handleMessage N handlers text) handlers ↔
          ThrowsLast handlers ∧ Noticed event handlers) ∧
      (FansOut (NatsEventBus.step N event) (NatsEventBus.handleMessage N handlers text)
        handlers ↔ ThrowsLast handlers ∧ Noticed event handlers) := by
  unfold KafkaEventBus.handleMessage RabbitMqEventBus.handleMessage NatsEventBus.handleMessage
  rw [hparse]
  exact ⟨fansOut_iff, fansOut_iff, fansOut_iff⟩

section Sample

open Noddde.Adapters.Sample

def resolving : Handler := ⟨"project", .returns (.ok ()) false⟩

def rejecting (reason : Reason) : Handler := ⟨"", .returns (.error reason) false⟩

def namedEvent : Json (Fin 10) := .object [(Json.ascii "name", .string (Json.ascii "Opened"))]

theorem parse_namedEvent : Json.parse (Json.stringify namedEvent) = some namedEvent := by
  apply Json.parse_stringify
  apply Json.Proper.object
  · simp
  · intro field hmem
    obtain rfl := List.mem_singleton.mp hmem
    exact .string _

theorem buses_fan_out_iff_rejecting :
    FansOut (KafkaEventBus.step (Fin 10) namedEvent)
      (KafkaEventBus.handleMessage (Fin 10) [rejecting (.error "down" false), resolving]
        (Json.stringify namedEvent)) [rejecting (.error "down" false), resolving] := by
  apply (buses_fan_out_iff parse_namedEvent _).1.mpr
  constructor
  · left
    intro handler hmem hthrows
    obtain ⟨reason, hthrows⟩ := hthrows
    simp only [List.mem_cons, List.not_mem_nil, or_false] at hmem
    cases hmem with
    | inl h => rw [h] at hthrows; cases hthrows
    | inr h => rw [h] at hthrows; cases hthrows
  · intro _
    right
    left
    exact ⟨rejecting (.error "down" false), by simp, .error "down" false, by simp, rfl⟩

/-- A single handler that rejects with `undefined`: the calls resolve. -/
theorem buses_fan_out_undefined :
    ¬ ∀ (text : JsString) (event : Json (Fin 10)) (handlers : List Handler),
      Json.parse text = some event →
        FansOut (KafkaEventBus.step (Fin 10) event)
          (KafkaEventBus.handleMessage (Fin 10) handlers text) handlers ∧
        FansOut (RabbitMqEventBus.step (Fin 10) event)
          (RabbitMqEventBus.handleMessage (Fin 10) handlers text) handlers ∧
        FansOut (NatsEventBus.step (Fin 10) event)
          (NatsEventBus.handleMessage (Fin 10) handlers text) handlers := by
  intro hall
  have hkafka := (hall _ _ [rejecting .undefined] parse_namedEvent).1
  unfold KafkaEventBus.handleMessage at hkafka
  rw [parse_namedEvent] at hkafka
  have hnoticed := (fansOut_iff.mp hkafka).2
    ⟨rejecting .undefined, by simp, .undefined, rfl⟩
  cases hnoticed with
  | inl hthrows =>
      obtain ⟨handler, hmem, reason, hthrows⟩ := hthrows
      rw [List.mem_singleton.mp hmem] at hthrows
      cases hthrows
  | inr hrest =>
      cases hrest with
      | inl hreason =>
          obtain ⟨handler, hmem, reason, hne, hsettlement⟩ := hreason
          rw [List.mem_singleton.mp hmem] at hsettlement
          cases hsettlement
          exact hne rfl
      | inr hname => exact hname rfl

end Sample

end Noddde.Brokers
