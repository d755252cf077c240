import Noddde.Brokers.KafkaConsumer
import Noddde.Proofs.FanOut
/-!
# The offset discipline of the Kafka bus

An offset is committed only past a message that is done with, and a message whose
handlers keep failing is parked after `maxRetries + 1` deliveries.
-/

namespace Noddde.Brokers.KafkaEventBus

variable {N : Type} [Json.Number N]

/-! ## The condition on a delivery -/

/-- The reason that the loop over the results keeps. -/
def firstReason (handlers : List Handler) : Option Reason :=
  (handlers.filterMap fun handler =>
    match handler.behaviour.settlement with
    | .error reason => some reason
    | .ok () => none).find? fun reason => reason ≠ .undefined

/-- `_markRetriable` makes the consumer restart. -/
def Flaggable (reason : Reason) : Prop := (markRetriable reason).retriable = true

/-- The loop over the results is reached and ends: no handler throws before it returns, and
the log entries of the rejections can be written. -/
structure Countable (event : Json N) (handlers : List Handler) : Prop where
  returns : ∀ handler ∈ handlers, ¬ handler.Throws
  printable : ∀ handler ∈ handlers, ∀ reason, handler.behaviour.settlement = .error reason →
    printName event = .ok () ∧ reason.print = .ok ()

variable {event : Json N} {handlers : List Handler}

theorem report_ok {handlerName : String} {reason : Reason} (hname : printName event = .ok ())
    (hprint : reason.print = .ok ()) : report event handlerName reason = .ok () := by
  unfold report
  cases hevent : eventName event with
  | error e =>
      unfold printName at hname
      rw [hevent] at hname
      cases hname
  | ok name =>
      simp only [hprint, hname]
      split_ifs <;> simp [bind, Except.bind]

theorem findFirstRejection_eq {first : Reason}
    (h : ∀ handler ∈ handlers, ∀ reason, handler.behaviour.settlement = .error reason →
      printName event = .ok () ∧ reason.print = .ok ()) :
    findFirstRejection event first (handlers.map Handler.promise) =
      .ok (if first = .undefined then (firstReason handlers).getD .undefined else first) := by
  induction handlers generalizing first with
  | nil =>
      simp only [List.map_nil, findFirstRejection, firstReason, List.filterMap_nil,
        List.find?_nil, Option.getD_none]
      split_ifs with hfirst
      · rw [hfirst]
      · rfl
  | cons handler rest ih =>
      obtain ⟨hhandler, hrest⟩ := List.forall_mem_cons.mp h
      rw [List.map_cons, findFirstRejection]
      simp only [Handler.promise, firstReason, List.filterMap_cons]
      cases hsettlement : handler.behaviour.settlement with
      | ok u => exact ih hrest
      | error reason =>
          obtain ⟨hname, hprint⟩ := hhandler reason hsettlement
          simp only [bind, Except.bind, report_ok hname hprint]
          rw [ih hrest, List.find?_cons]
          by_cases hfirst : first = .undefined
          · by_cases hreason : reason = .undefined
            · simp [hfirst, hreason, firstReason]
            · simp [hfirst, hreason]
          · simp [hfirst]

theorem fanOut_eq (h : Countable event handlers) :
    fanOut event handlers = .ok ((firstReason handlers).getD .undefined) := by
  rw [fanOut, callAll_of_returns h.returns]
  simp only
  rw [findFirstRejection_eq h.printable, if_pos rfl]

theorem printable_of_report {handlerName : String} {reason : Reason}
    (h : report event handlerName reason = .ok ()) :
    printName event = .ok () ∧ reason.print = .ok () := by
  unfold report at h
  have hrest : (do reason.print; printName event) = Except.ok () := by
    cases hevent : eventName event with
    | error e =>
        simp only [hevent] at h
        split_ifs at h
        · exact h
        · cases h
    | ok name =>
        simp only [hevent] at h
        split_ifs at h <;> exact h
  cases hprint : reason.print with
  | error e => rw [hprint] at hrest; cases hrest
  | ok u =>
      rw [hprint] at hrest
      exact ⟨hrest, rfl⟩

theorem printable_of_findFirstRejection {first found : Reason} {promises : List Promise}
    (h : findFirstRejection event first promises = .ok found) :
    ∀ promise ∈ promises, ∀ reason, promise.settlement = .error reason →
      printName event = .ok () ∧ reason.print = .ok () := by
  induction promises generalizing first with
  | nil => simp
  | cons promise rest ih =>
      rw [findFirstRejection] at h
      cases hsettlement : promise.settlement with
      | ok u =>
          rw [hsettlement] at h
          refine List.forall_mem_cons.mpr ⟨fun reason hreason => ?_, ih h⟩
          rw [hsettlement] at hreason
          cases hreason
      | error err =>
          rw [hsettlement] at h
          cases hreport : report event promise.handlerName err with
          | error e => simp [hreport, bind, Except.bind] at h
          | ok u =>
              simp only [hreport, bind, Except.bind] at h
              refine List.forall_mem_cons.mpr ⟨fun reason hreason => ?_, ih h⟩
              rw [hsettlement] at hreason
              cases hreason
              exact printable_of_report hreport

theorem countable_of_fanOut {found : Reason} (h : fanOut event handlers = .ok found) :
    Countable event handlers := by
  cases throws_cases handlers with
  | inl hreturns =>
      rw [fanOut, callAll_of_returns hreturns] at h
      refine ⟨hreturns, fun handler hmem reason hreason => ?_⟩
      exact printable_of_findFirstRejection h handler.promise (List.mem_map_of_mem hmem) reason
        hreason
  | inr hthrows =>
      obtain ⟨before, handler, after, reason, rfl, hbefore, hthrows⟩ := hthrows
      rw [fanOut, callAll_of_throws hbefore hthrows] at h
      cases h

theorem firstReason_ne_undefined {reason : Reason} (h : firstReason handlers = some reason) :
    reason ≠ .undefined := by
  simpa using List.find?_some h

theorem fails_of_firstReason {reason : Reason} (h : firstReason handlers = some reason) :
    ∃ handler ∈ handlers, handler.Fails := by
  obtain ⟨handler, hmem, hreason⟩ := List.mem_filterMap.mp (List.mem_of_find?_eq_some h)
  cases hsettlement : handler.behaviour.settlement with
  | ok u => rw [hsettlement] at hreason; cases hreason
  | error other => exact ⟨handler, hmem, other, hsettlement⟩

/-! ## One delivery -/

/-- What a delivery on which handlers fail is to meet: the loop over the results ends, a
reason other than `undefined` is found, it can be flagged while attempts are left, and the
DLQ topic takes the copy once they are used up. -/
def Sound (maxRetries : Option Nat) (location : Location) (delivery : Delivery)
    (deliveryCounts : Location → Nat) (body : Option (Json N)) : Prop :=
  ∀ event, body = some event → (∃ handler ∈ delivery.handlers, handler.Fails) →
    Countable event delivery.handlers ∧
      ∃ reason, firstReason delivery.handlers = some reason ∧
        if deliveryCounts location < maxRetries.getD DEFAULT_MAX_RETRIES then Flaggable reason
        else delivery.parkToDlq = .ok ()

section Handle

variable {maxRetries : Option Nat} {location : Location} {delivery : Delivery}
  {deliveryCounts : Location → Nat}

/-- Handlers fail: the delivery is counted and flagged, or it is parked. -/
inductive Fails (maxRetries : Option Nat) (location : Location)
    (deliveryCounts : Location → Nat) (handled : Handled) : Prop where
  | retries (reason : Reason) : reason.retriable = true → handled.parked = false →
      handled.settlement = .error reason →
      deliveryCounts location < maxRetries.getD DEFAULT_MAX_RETRIES →
      handled.deliveryCounts =
        Function.update deliveryCounts location (deliveryCounts location + 1) →
      Fails maxRetries location deliveryCounts handled
  | parks : handled.parked = true → handled.settlement = .ok () →
      maxRetries.getD DEFAULT_MAX_RETRIES ≤ deliveryCounts location →
      handled.deliveryCounts = Function.update deliveryCounts location 0 →
      Fails maxRetries location deliveryCounts handled

theorem countAttempt_fails_iff {reason : Reason} (hne : reason ≠ .undefined) :
    Fails maxRetries location deliveryCounts
        (countAttempt maxRetries location delivery deliveryCounts reason) ↔
      if deliveryCounts location < maxRetries.getD DEFAULT_MAX_RETRIES then Flaggable reason
      else delivery.parkToDlq = .ok () := by
  simp only [countAttempt, if_neg hne]
  by_cases hmore : deliveryCounts location + 1 ≤ maxRetries.getD DEFAULT_MAX_RETRIES
  · have hlt : deliveryCounts location < maxRetries.getD DEFAULT_MAX_RETRIES := hmore
    rw [if_pos hmore, if_pos hlt]
    constructor
    · intro hfails
      cases hfails with
      | retries other hflag _ hsettlement =>
          cases hsettlement
          exact hflag
      | parks hparked => cases hparked
    · intro hflag
      exact .retries _ hflag rfl rfl hmore rfl
  · have hlt : ¬ deliveryCounts location < maxRetries.getD DEFAULT_MAX_RETRIES := hmore
    rw [if_neg hmore, if_neg hlt]
    cases hdlq : delivery.parkToDlq with
    | error reason =>
        constructor
        · intro hfails
          cases hfails with
          | retries _ _ _ _ hlt => exact absurd hlt hmore
          | parks hparked => cases hparked
        · intro hok
          cases hok
    | ok u =>
        have hcap : maxRetries.getD DEFAULT_MAX_RETRIES ≤ deliveryCounts location := by omega
        exact ⟨fun _ => rfl, fun _ => .parks rfl rfl hcap (Function.update_idem ..)⟩

/-- A delivery on which handlers fail is counted and flagged, or parked, if and only if it is
sound. -/
theorem handleMessageAt_fails_iff (hfails : ∃ handler ∈ delivery.handlers, handler.Fails) :
    Fails maxRetries location deliveryCounts
        (handleMessageAt maxRetries location delivery deliveryCounts (some event)) ↔
      Sound maxRetries location delivery deliveryCounts (some event) := by
  have hsound : Sound maxRetries location delivery deliveryCounts (some event) ↔
      Countable event delivery.handlers ∧ ∃ reason,
        firstReason delivery.handlers = some reason ∧
        if deliveryCounts location < maxRetries.getD DEFAULT_MAX_RETRIES then Flaggable reason
        else delivery.parkToDlq = .ok () := by
    constructor
    · intro h
      exact h event rfl hfails
    · intro h other hother _
      cases hother
      exact h
  rw [hsound]
  by_cases hcountable : Countable event delivery.handlers
  · simp only [handleMessageAt, fanOut_eq hcountable]
    cases hreason : firstReason delivery.handlers with
    | none =>
        simp only [Option.getD_none, countAttempt, if_true, reduceCtorEq, false_and,
          exists_false, and_false, iff_false]
        intro h
        cases h with
        | retries _ _ _ hsettlement => cases hsettlement
        | parks hparked => cases hparked
    | some reason =>
        simp only [Option.getD_some]
        rw [countAttempt_fails_iff (firstReason_ne_undefined hreason)]
        constructor
        · intro h
          exact ⟨hcountable, reason, rfl, h⟩
        · intro h
          obtain ⟨-, other, hother, h⟩ := h
          cases hother
          exact h
  · have herror : ∃ thrown, fanOut event delivery.handlers = .error thrown := by
      by_contra hnone
      apply hcountable
      cases hfan : fanOut event delivery.handlers with
      | error thrown => exact absurd ⟨thrown, hfan⟩ hnone
      | ok reason => exact countable_of_fanOut hfan
    obtain ⟨thrown, herror⟩ := herror
    simp only [handleMessageAt, herror, hcountable, false_and, iff_false]
    intro h
    cases h with
    | retries _ _ _ _ _ hcounts =>
        have hself : deliveryCounts location = deliveryCounts location + 1 :=
          (congrFun hcounts location).trans (Function.update_self ..)
        omega
    | parks hparked => cases hparked

theorem handleMessageAt_resolves (hresolve : ∀ handler ∈ delivery.handlers, ¬ handler.Fails) :
    handleMessageAt maxRetries location delivery deliveryCounts (some event) =
      { deliveryCounts, called := calledBy delivery.handlers, settlement := .ok () } := by
  have hcountable : Countable event delivery.handlers :=
    ⟨fun handler hmem hthrows => hresolve handler hmem hthrows.fails,
      fun handler hmem reason hreason => absurd ⟨reason, hreason⟩ (hresolve handler hmem)⟩
  have hnone : firstReason delivery.handlers = none := by
    cases hreason : firstReason delivery.handlers with
    | none => rfl
    | some reason =>
        obtain ⟨handler, hmem, hfails⟩ := fails_of_firstReason hreason
        exact absurd hfails (hresolve handler hmem)
  simp [handleMessageAt, fanOut_eq hcountable, hnone, countAttempt]

end Handle

/-! ## The discipline -/

variable {log : Log} {maxRetries : Option Nat} {consumer next : Consumer}

/-- The message at `location` is a text that `JSON.parse` reads. -/
def Parses (N : Type) [Json.Number N] (log : Log) (location : Location) : Prop :=
  ∃ rawValue, (log location.source)[location.offset]? = some (some rawValue) ∧
    (Json.parse rawValue : Option (Json N)).isSome

/-- Handlers were called, and some of them failed. -/
def Record.Failed (N : Type) [Json.Number N] (log : Log) (record : Record) : Prop :=
  Parses N log record.location ∧ ∃ handler ∈ record.handlers, handler.Fails

namespace Consumer

/-- The deliveries of one message, the latest first. -/
def deliveriesOf (consumer : Consumer) (location : Location) : List Record :=
  consumer.history.filter fun record => record.location = location

variable (N) in
/-- The message is a tombstone or cannot be parsed, or a delivery of it was parked or left
every handler resolved. -/
def Accounted (log : Log) (consumer : Consumer) (location : Location) : Prop :=
  ¬ Parses N log location ∨
    ∃ record ∈ consumer.deliveriesOf location,
      record.parked = true ∨ ∀ handler ∈ record.handlers, ¬ handler.Fails

variable (N) in
structure Disciplined (log : Log) (maxRetries : Option Nat) (consumer : Consumer) : Prop where
  commits : ∀ record ∈ consumer.history, record.committed = true →
    ¬ Parses N log record.location ∨ record.parked = true ∨
      ∀ handler ∈ record.handlers, ¬ handler.Fails
  passes : ∀ source offset, offset < consumer.committed source →
    consumer.Accounted N log ⟨source, offset⟩
  flagged : ∀ record ∈ consumer.history, record.Failed N log → record.parked = false →
    ∃ reason, record.settlement = .error reason ∧ reason.retriable = true
  parks : ∀ location, (∀ record ∈ consumer.deliveriesOf location, record.Failed N log) →
    maxRetries.getD DEFAULT_MAX_RETRIES < (consumer.deliveriesOf location).length →
    ∃ record ∈ consumer.deliveriesOf location, record.parked = true

variable (N) in
structure Inv (log : Log) (maxRetries : Option Nat) (consumer : Consumer) : Prop where
  commits : ∀ record ∈ consumer.history, record.committed = true →
    ¬ Parses N log record.location ∨ record.parked = true ∨
      ∀ handler ∈ record.handlers, ¬ handler.Fails
  passed : ∀ source offset,
    offset < consumer.committed source ∨ offset < consumer.position source →
      consumer.Accounted N log ⟨source, offset⟩
  flagged : ∀ record ∈ consumer.history, record.Failed N log → record.parked = false →
    ∃ reason, record.settlement = .error reason ∧ reason.retriable = true
  counted : ∀ location,
    (∀ record ∈ consumer.deliveriesOf location,
      record.Failed N log ∧ record.parked = false) →
    consumer.deliveryCounts location = (consumer.deliveriesOf location).length ∧
      (consumer.deliveriesOf location).length ≤ maxRetries.getD DEFAULT_MAX_RETRIES

theorem Inv.disciplined (h : Inv N log maxRetries consumer) :
    Disciplined N log maxRetries consumer := by
  refine ⟨h.commits, fun source offset hlt => h.passed source offset (.inl hlt), h.flagged,
    fun location hfailed hlt => ?_⟩
  by_contra hnone
  push Not at hnone
  have hcounted := h.counted location fun record hmem =>
    ⟨hfailed record hmem, Bool.eq_false_iff.mpr (hnone record hmem)⟩
  omega

theorem inv_init : Inv N log maxRetries {} := by
  constructor
  · intro record hmem
    cases hmem
  · intro source offset hlt
    cases hlt with
    | inl hlt => exact absurd hlt (Nat.not_lt_zero _)
    | inr hlt => exact absurd hlt (Nat.not_lt_zero _)
  · intro record hmem
    cases hmem
  · intro location _
    exact ⟨rfl, Nat.zero_le _⟩

/-! ### One step -/

/-- The record that a delivery adds to the history. -/
structure Adds (location : Location) (record : Record) (consumer next : Consumer) : Prop where
  location : record.location = location
  history : next.history = record :: consumer.history

variable {location : Location} {record : Record}

theorem Adds.deliveriesOf (h : Adds location record consumer next) (other : Location) :
    next.deliveriesOf other =
      if location = other then record :: consumer.deliveriesOf other
      else consumer.deliveriesOf other := by
  unfold Consumer.deliveriesOf
  rw [h.history, List.filter_cons, h.location]
  simp

theorem Adds.mem (h : Adds location record consumer next) {other : Location} {old : Record}
    (hmem : old ∈ consumer.deliveriesOf other) : old ∈ next.deliveriesOf other := by
  rw [h.deliveriesOf]
  split_ifs
  · exact List.mem_cons_of_mem _ hmem
  · exact hmem

theorem Accounted.mono (h : Adds location record consumer next) {other : Location}
    (hother : consumer.Accounted N log other) : next.Accounted N log other := by
  apply hother.imp_right
  intro hfound
  obtain ⟨old, hmem, hdone⟩ := hfound
  exact ⟨old, h.mem hmem, hdone⟩

section Deliver

variable {delivery : Delivery} {body : Option (Json N)}

/-- What `eachMessage` does with what `_handleMessage` left. -/
inductive Ends (location : Location) (handled : Handled)
    (consumer next : Consumer) : Record → Prop where
  | crashes (reason : Reason) (record : Record) :
      (∀ thrown, handled.settlement = .error thrown → reason = thrown) →
      record.settlement = .error reason → record.committed = false →
      next.committed = consumer.committed → next.position = consumer.position →
      next.deliveryCounts = handled.deliveryCounts →
      Ends location handled consumer next record
  | commits (record : Record) :
      handled.settlement = .ok () → record.committed = true →
      next.committed = Function.update consumer.committed location.source
        (location.offset + 1) →
      next.position = Function.update consumer.position location.source
        (location.offset + 1) →
      next.deliveryCounts = Function.update handled.deliveryCounts location 0 →
      Ends location handled consumer next record

theorem commit_ends (handled : Handled) (consumer : Consumer) :
    ∃ record, Adds location record consumer (consumer.commit location delivery handled) ∧
      record.handlers = delivery.handlers ∧ record.parked = handled.parked ∧
      Ends location handled consumer (consumer.commit location delivery handled) record := by
  obtain ⟨deliveryCounts, called, parked, settlement⟩ := handled
  cases settlement with
  | error thrown =>
      refine ⟨_, ⟨?_, rfl⟩, rfl, rfl, .crashes thrown _ (fun other hother => ?_) rfl rfl rfl rfl
        rfl⟩
      · rfl
      · exact Except.error.inj hother
  | ok u =>
      unfold commit
      simp only [Except.bind]
      cases hcommit : delivery.commitOffsets with
      | error reason =>
          refine ⟨_, ⟨?_, rfl⟩, rfl, rfl, .crashes reason _ (fun other hother => ?_) rfl rfl rfl
            rfl rfl⟩
          · rfl
          · cases hother
      | ok v =>
          refine ⟨_, ⟨?_, rfl⟩, rfl, rfl, .commits _ rfl rfl rfl rfl rfl⟩
          rfl

theorem handleMessageAt_frame {deliveryCounts : Location → Nat} {other : Location}
    (hne : other ≠ location)
    (h : Sound maxRetries location delivery deliveryCounts body) :
    (handleMessageAt maxRetries location delivery deliveryCounts body).deliveryCounts other =
      deliveryCounts other := by
  cases body with
  | none => rfl
  | some event =>
      by_cases hfails : ∃ handler ∈ delivery.handlers, handler.Fails
      · cases (handleMessageAt_fails_iff hfails).mpr h with
        | retries reason _ _ _ _ hcounts =>
            rw [hcounts]
            exact Function.update_of_ne hne ..
        | parks _ _ _ hcounts =>
            rw [hcounts]
            exact Function.update_of_ne hne ..
      · push Not at hfails
        rw [handleMessageAt_resolves hfails]

theorem done_of_ok {deliveryCounts : Location → Nat} {event : Json N}
    (h : Sound maxRetries location delivery deliveryCounts (some event))
    (hok : (handleMessageAt maxRetries location delivery deliveryCounts
      (some event)).settlement = .ok ()) :
    (handleMessageAt maxRetries location delivery deliveryCounts (some event)).parked = true ∨
      ∀ handler ∈ delivery.handlers, ¬ handler.Fails := by
  by_cases hfails : ∃ handler ∈ delivery.handlers, handler.Fails
  · left
    cases (handleMessageAt_fails_iff hfails).mpr h with
    | retries reason _ _ herror => rw [herror] at hok; cases hok
    | parks hparked => exact hparked
  · push Not at hfails
    exact .inr hfails

/-- A delivery on which handlers fail, and that is not parked, throws what is flagged. -/
theorem retries_of_failed {deliveryCounts : Location → Nat} {rawValue : JsString}
    (hlog : (log location.source)[location.offset]? = some (some rawValue))
    (hsound : Sound maxRetries location delivery deliveryCounts
      (Json.parse rawValue : Option (Json N)))
    (hlocation : record.location = location) (hhandlers : record.handlers = delivery.handlers)
    (hfailed : record.Failed N log)
    (hparked : (handleMessageAt maxRetries location delivery deliveryCounts
      (Json.parse rawValue : Option (Json N))).parked = false) :
    ∃ reason, reason.retriable = true ∧
      (handleMessageAt maxRetries location delivery deliveryCounts
        (Json.parse rawValue : Option (Json N))).settlement = .error reason ∧
      deliveryCounts location < maxRetries.getD DEFAULT_MAX_RETRIES ∧
      (handleMessageAt maxRetries location delivery deliveryCounts
        (Json.parse rawValue : Option (Json N))).deliveryCounts =
        Function.update deliveryCounts location (deliveryCounts location + 1) := by
  obtain ⟨⟨text, htext, hparses⟩, hfails⟩ := hfailed
  rw [hlocation, hlog] at htext
  cases htext
  obtain ⟨event, hevent⟩ := Option.isSome_iff_exists.mp hparses
  rw [hhandlers] at hfails
  rw [hevent] at hsound hparked ⊢
  cases (handleMessageAt_fails_iff hfails).mpr hsound with
  | retries reason hflag _ hsettlement hlt hcounts =>
      exact ⟨reason, hflag, hsettlement, hlt, hcounts⟩
  | parks htrue => rw [htrue] at hparked; cases hparked

theorem inv_eachMessage {rawValue : JsString} (hinv : Inv N log maxRetries consumer)
    (hposition : location.offset = consumer.position location.source)
    (hlog : (log location.source)[location.offset]? = some (some rawValue))
    (hsound : Sound maxRetries location delivery consumer.deliveryCounts
      (Json.parse rawValue : Option (Json N))) :
    Inv N log maxRetries (consumer.eachMessage maxRetries location delivery
      (Json.parse rawValue : Option (Json N))) := by
  obtain ⟨record, hadds, hhandlers, hparked, hends⟩ : ∃ record,
      Adds location record consumer (consumer.commit location delivery _) ∧
        record.handlers = delivery.handlers ∧ record.parked = Handled.parked _ ∧
        Ends location _ consumer (consumer.commit location delivery _) record :=
    commit_ends (handleMessageAt maxRetries location
      delivery consumer.deliveryCounts (Json.parse rawValue : Option (Json N))) consumer
  have hretries := fun hfailed => retries_of_failed hlog hsound hadds.location hhandlers hfailed
  have hframe := fun other (hne : other ≠ location) => handleMessageAt_frame hne hsound
  have hdone : (handleMessageAt maxRetries location delivery consumer.deliveryCounts
      (Json.parse rawValue : Option (Json N))).settlement = .ok () →
        ¬ Parses N log location ∨ record.parked = true ∨
          ∀ handler ∈ record.handlers, ¬ handler.Fails := by
    intro hok
    cases hbody : (Json.parse rawValue : Option (Json N)) with
    | none =>
        left
        intro hparses
        obtain ⟨text, htext, hsome⟩ := hparses
        rw [hlog] at htext
        cases htext
        rw [hbody] at hsome
        cases hsome
    | some event =>
        right
        rw [hbody] at hsound hok hparked
        rw [hparked, hhandlers]
        exact done_of_ok hsound hok
  unfold eachMessage
  generalize handleMessageAt maxRetries location delivery consumer.deliveryCounts
    (Json.parse rawValue : Option (Json N)) = handled at *
  generalize consumer.commit location delivery handled = next at *
  constructor
  · intro other hmem hcommitted
    rw [hadds.history] at hmem
    cases List.mem_cons.mp hmem with
    | inr hold => exact hinv.commits other hold hcommitted
    | inl hnew =>
        rw [hnew] at hcommitted ⊢
        rw [hadds.location]
        cases hends with
        | crashes reason _ _ _ hnot => rw [hnot] at hcommitted; cases hcommitted
        | commits _ hok => exact hdone hok
  · intro source offset hlt
    cases hends with
    | crashes reason _ _ _ _ hcommitted hposition' =>
        rw [hcommitted, hposition'] at hlt
        exact (hinv.passed source offset hlt).mono hadds
    | commits _ hok _ hcommitted hposition' =>
        rw [hcommitted, hposition'] at hlt
        by_cases hsource : source = location.source
        · subst hsource
          simp only [Function.update_self, or_self] at hlt
          cases Nat.lt_succ_iff_lt_or_eq.mp hlt with
          | inl hbefore =>
              rw [hposition] at hbefore
              exact (hinv.passed _ offset (.inr hbefore)).mono hadds
          | inr hnow =>
              rw [hnow]
              apply (hdone hok).imp_right
              intro hrecord
              refine ⟨record, ?_, hrecord⟩
              rw [hadds.deliveriesOf]
              simp
        · simp only [Function.update_of_ne hsource] at hlt
          exact (hinv.passed source offset hlt).mono hadds
  · intro other hmem hfailed hunparked
    rw [hadds.history] at hmem
    cases List.mem_cons.mp hmem with
    | inr hold => exact hinv.flagged other hold hfailed hunparked
    | inl hnew =>
        rw [hnew] at hfailed hunparked ⊢
        rw [hparked] at hunparked
        obtain ⟨reason, hflag, hsettlement, -⟩ := hretries hfailed hunparked
        cases hends with
        | crashes thrown _ hthrown herror =>
            rw [hthrown reason hsettlement] at herror
            exact ⟨reason, herror, hflag⟩
        | commits _ hok => rw [hsettlement] at hok; cases hok
  · intro other hall
    rw [hadds.deliveriesOf] at hall ⊢
    by_cases hother : location = other
    · subst hother
      rw [if_pos rfl] at hall ⊢
      obtain ⟨⟨hfailed, hunparked⟩, hold⟩ := List.forall_mem_cons.mp hall
      rw [hparked] at hunparked
      obtain ⟨reason, hflag, hsettlement, hlt, hcounts⟩ := hretries hfailed hunparked
      obtain ⟨hcount, -⟩ := hinv.counted location hold
      cases hends with
      | crashes thrown _ _ _ _ _ _ hnext =>
          rw [hnext, hcounts, Function.update_self, List.length_cons]
          omega
      | commits _ hok => rw [hsettlement] at hok; cases hok
    · rw [if_neg hother] at hall ⊢
      have hne : other ≠ location := Ne.symm hother
      have hsame : next.deliveryCounts other = consumer.deliveryCounts other := by
        cases hends with
        | crashes thrown _ _ _ _ _ _ hnext => rw [hnext, hframe other hne]
        | commits _ _ _ _ _ hnext =>
            rw [hnext, Function.update_of_ne hne, hframe other hne]
      rw [hsame]
      exact hinv.counted other hall

end Deliver

/-! ### Every step -/

variable (N) in
/-- The condition on a step: a delivery is sound. -/
def Meets (log : Log) (maxRetries : Option Nat) (consumer : Consumer) : Action → Prop
  | .deliver source delivery => ∀ rawValue,
      (log source)[consumer.position source]? = some (some rawValue) →
        Sound maxRetries ⟨source, consumer.position source⟩ delivery consumer.deliveryCounts
          (Json.parse rawValue : Option (Json N))
  | _ => True

theorem inv_step {action : Action} (hinv : Inv N log maxRetries consumer)
    (hmeets : consumer.Meets N log maxRetries action)
    (hstep : step N log maxRetries consumer action = some next) :
    Inv N log maxRetries next := by
  cases action with
  | deliver source delivery =>
      simp only [step] at hstep
      split_ifs at hstep
      cases hmessage : (log source)[consumer.position source]? with
      | none => rw [hmessage] at hstep; cases hstep
      | some message =>
          cases message with
          | none =>
              rw [hmessage] at hstep
              cases hstep
              refine ⟨hinv.commits, fun other offset hlt => ?_, hinv.flagged, hinv.counted⟩
              by_cases hother : other = source
              · subst hother
                simp only [Function.update_self] at hlt
                by_cases hnow : offset = consumer.position other
                · left
                  intro hparses
                  obtain ⟨rawValue, htext, -⟩ := hparses
                  rw [hnow, hmessage] at htext
                  cases htext
                · exact hinv.passed other offset (hlt.imp_right fun h => by omega)
              · simp only [Function.update_of_ne hother] at hlt
                exact hinv.passed other offset hlt
          | some rawValue =>
              rw [hmessage] at hstep
              cases hstep
              exact inv_eachMessage hinv rfl hmessage (hmeets rawValue hmessage)
  | rebalance source =>
      simp only [step] at hstep
      split_ifs at hstep
      cases hstep
      refine ⟨hinv.commits, fun other offset hlt => ?_, hinv.flagged, hinv.counted⟩
      by_cases hother : other = source
      · subst hother
        simp only [Function.update_self, or_self] at hlt
        exact hinv.passed other offset (.inl hlt)
      · simp only [Function.update_of_ne hother] at hlt
        exact hinv.passed other offset hlt
  | restart =>
      simp only [step] at hstep
      cases hcrashed : consumer.crashed with
      | none => rw [hcrashed] at hstep; cases hstep
      | some reason =>
          rw [hcrashed] at hstep
          simp only at hstep
          split_ifs at hstep
          cases hstep
          refine ⟨hinv.commits, fun other offset hlt => ?_, hinv.flagged, hinv.counted⟩
          exact hinv.passed other offset (.inl (or_self_iff.mp hlt))

/-- In a run whose deliveries are all sound, an offset is committed only past a message that
is done with, what earlier deliveries throw makes the consumer restart, and a message whose
handlers fail on every delivery is parked after `maxRetries + 1` deliveries. -/
theorem disciplined_of_run (log : Log) (maxRetries : Option Nat)
    (hrun : Machine.Run (step N log maxRetries) (Meets N log maxRetries) {} consumer) :
    consumer.Disciplined N log maxRetries :=
  (hrun.inv inv_init fun _ _ _ hinv hmeets hstep => inv_step hinv hmeets hstep).disciplined

section Sample

open Noddde.Adapters.Sample

def openedLog : Log := fun _ => [some (Json.stringify namedEvent)]

def opened : TopicPartition := ⟨"Opened", 0⟩

/-- A delivery to a handler that rejects with an `Error`. -/
def failing : Delivery where
  handlers := [rejecting (.error "down" false)]

theorem meets_failing (maxRetries : Option Nat) (consumer : Consumer) :
    consumer.Meets (Fin 10) openedLog maxRetries (.deliver opened failing) := by
  intro rawValue hmessage event hevent hfails
  have hraw : rawValue = Json.stringify namedEvent := by
    have hmem := List.mem_of_getElem? hmessage
    simpa [openedLog] using hmem
  rw [hraw, parse_namedEvent] at hevent
  cases hevent
  refine ⟨⟨fun handler hmem hthrows => ?_, fun handler hmem reason hreason => ?_⟩,
    .error "down" false, rfl, ?_⟩
  · obtain ⟨reason, hthrows⟩ := hthrows
    rw [List.mem_singleton.mp hmem] at hthrows
    cases hthrows
  · rw [List.mem_singleton.mp hmem] at hreason
    cases hreason
    exact ⟨rfl, rfl⟩
  · split_ifs <;> rfl

theorem disciplined_of_run_parked :
    ∃ consumer, Consumer.Disciplined (Fin 10) openedLog (some 1) consumer ∧
      consumer.committed opened = 1 := by
  have hplay : (Machine.play (step (Fin 10) openedLog (some 1))
      [.deliver opened failing, .restart, .deliver opened failing] {}).map
        (fun consumer => consumer.committed opened) = some 1 := by decide +kernel
  obtain ⟨consumer, hplay, hcommitted⟩ := Option.map_eq_some_iff.mp hplay
  refine ⟨consumer, disciplined_of_run openedLog (some 1) (Machine.run_of_play ?_ hplay),
    hcommitted⟩
  intro action hmem consumer
  simp only [List.mem_cons, List.not_mem_nil, or_false] at hmem
  cases hmem with
  | inl h => rw [h]; exact meets_failing _ _
  | inr hmem =>
      cases hmem with
      | inl h => rw [h]; trivial
      | inr h => rw [h]; exact meets_failing _ _

/-- A handler that rejects with `undefined`: the offset is committed. -/
theorem disciplined_undefined :
    ¬ ∀ (log : Log) (maxRetries : Option Nat) (consumer : Consumer),
      Machine.Reaches (step (Fin 10) log maxRetries) {} consumer →
        consumer.Disciplined (Fin 10) log maxRetries := by
  intro hall
  have hplay : (Machine.play (step (Fin 10) openedLog none)
      [.deliver opened { handlers := [rejecting .undefined] }] {}).map
        (fun consumer => consumer.history.any fun record =>
          record.committed && !record.parked && decide (record.location = ⟨opened, 0⟩) &&
            record.handlers.any fun handler =>
              decide (handler.behaviour.settlement = .error .undefined)) = some true := by
    decide +kernel
  obtain ⟨consumer, hplay, hany⟩ := Option.map_eq_some_iff.mp hplay
  have hrun := Machine.run_of_play (C := fun _ _ => True) (fun _ _ _ => trivial) hplay
  obtain ⟨record, hmem, hrecord⟩ := List.any_eq_true.mp hany
  simp only [Bool.and_eq_true, Bool.not_eq_true', decide_eq_true_eq, List.any_eq_true] at hrecord
  obtain ⟨⟨⟨hcommitted, hparked⟩, hlocation⟩, handler, hhandler, hfails⟩ := hrecord
  have hparses : Parses (Fin 10) openedLog ⟨opened, 0⟩ :=
    ⟨_, rfl, by rw [parse_namedEvent]; rfl⟩
  cases (hall openedLog none consumer hrun).commits record hmem hcommitted with
  | inl hnot => rw [hlocation] at hnot; exact hnot hparses
  | inr hdone =>
      cases hdone with
      | inl htrue => rw [hparked] at htrue; cases htrue
      | inr hresolve => exact hresolve handler hhandler ⟨_, hfails⟩

end Sample

end Consumer

end Noddde.Brokers.KafkaEventBus
