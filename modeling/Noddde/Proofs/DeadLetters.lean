import Noddde.Proofs.AggregateChains
import Mathlib.Data.List.Perm.Subperm
/-!
# Dead-letter accounting

The counter of a key counts the deliveries begun under it since it was last deleted.  Where
these are failed deliveries of one message, a message is dead-lettered only after that many
failures.
-/

namespace Noddde.Brokers.RabbitMqEventBus

/-- Deliveries of one message from one queue. -/
def Message.Same (message other : Message) : Prop :=
  message.eventName = other.eventName ∧ message.copy = other.copy

instance (message other : Message) : Decidable (message.Same other) :=
  inferInstanceAs (Decidable (_ ∧ _))

namespace Event

def delivery : Event → Nat
  | .began d _ => d
  | .ended d _ _ _ => d

def message : Event → Message
  | .began _ message => message
  | .ended _ message _ _ => message

def isFinal : Event → Bool
  | .began _ _ => false
  | .ended _ _ _ verdict => verdict ≠ .nacked

def isFailureOf (message : Message) : Event → Bool
  | .began _ _ => false
  | .ended _ other _ verdict => verdict = .nacked ∧ other.Same message

end Event

def failures (message : Message) (history : List Event) : Nat :=
  (history.filter (Event.isFailureOf message)).length

/-- The deliveries begun under a key since the last event that deletes its counter. -/
def countedSince (retryKey : String) : List Event → List (Nat × Message)
  | [] => []
  | .began d message :: rest =>
      if message.retryKey = retryKey then (d, message) :: countedSince retryKey rest
      else countedSince retryKey rest
  | .ended _ message _ verdict :: rest =>
      if message.retryKey = retryKey ∧ verdict ≠ .nacked then [] else countedSince retryKey rest

/-- What the counter of a message counts are failed deliveries of that message. -/
def CountsFailures (history : List Event) (message : Message) : Prop :=
  ∀ d other, (d, other) ∈ countedSince message.retryKey history →
    other.Same message ∧ ∃ handlers, .ended d other handlers .nacked ∈ history

def begunIn (history : List Event) : List Nat :=
  history.filterMap fun event =>
    match event with
    | .began d _ => some d
    | .ended _ _ _ _ => none

variable {m : Nat} {history : List Event} {message : Message}

theorem countedSince_sublist (retryKey : String) (history : List Event) :
    ((countedSince retryKey history).map Prod.fst).Sublist (begunIn history) := by
  induction history with
  | nil => exact .slnil
  | cons event rest ih =>
      cases event with
      | began d message =>
          have hbegun : begunIn (.began d message :: rest) = d :: begunIn rest := rfl
          rw [hbegun, countedSince]
          split_ifs
          · exact ih.cons_cons d
          · exact ih.cons d
      | ended d message handlers verdict =>
          have hbegun : begunIn (.ended d message handlers verdict :: rest) = begunIn rest := rfl
          rw [hbegun, countedSince]
          split_ifs
          · exact List.nil_sublist _
          · exact ih

/-- If the counter counts failures, there are as many of them. -/
theorem length_countedSince_le (hnodup : (begunIn history).Nodup)
    (h : CountsFailures history message) :
    (countedSince message.retryKey history).length ≤ failures message history := by
  have hnodup' := hnodup.sublist (countedSince_sublist message.retryKey history)
  have hsubset : (countedSince message.retryKey history).map Prod.fst ⊆
      (history.filter (Event.isFailureOf message)).map Event.delivery := by
    intro d hmem
    obtain ⟨⟨e, other⟩, hcounted, rfl⟩ := List.mem_map.mp hmem
    obtain ⟨hsame, handlers, hended⟩ := h e other hcounted
    apply List.mem_map.mpr
    refine ⟨_, List.mem_filter.mpr ⟨hended, ?_⟩, rfl⟩
    simpa [Event.isFailureOf] using hsame
  have hle := (hnodup'.subperm hsubset).length_le
  simpa [failures] using hle

/-! ## The ledger -/

structure Ledger (m : Nat) (history : List Event) (deliveryCounts : DeliveryCounts) : Prop where
  counts : ∀ key, deliveryCounts key = (countedSince key history).length
  exhausted : ∀ after d message handlers before,
    history = after ++ .ended d message handlers .deadLettered :: before →
      m ≤ failures message before

variable {deliveryCounts : DeliveryCounts} {d : Nat} {handlers : List Handler}

theorem countedSince_cons_of_ne {event : Event} {key : String}
    (h : event.message.retryKey ≠ key) :
    countedSince key (event :: history) = countedSince key history := by
  cases event with
  | began d message =>
      rw [countedSince]
      exact if_neg h
  | ended d message handlers verdict => rw [countedSince, if_neg fun hand => h hand.1]

theorem countedSince_began :
    countedSince message.retryKey (.began d message :: history) =
      (d, message) :: countedSince message.retryKey history := by
  rw [countedSince, if_pos rfl]

theorem countedSince_nacked (key : String) :
    countedSince key (.ended d message handlers .nacked :: history) =
      countedSince key history := by
  rw [countedSince, if_neg fun hand => hand.2 rfl]

theorem countedSince_final {verdict : Verdict} (h : verdict ≠ .nacked) :
    countedSince message.retryKey (.ended d message handlers verdict :: history) = [] := by
  rw [countedSince, if_pos ⟨rfl, h⟩]

/-- An event that is no dead letter. -/
theorem exhausted_cons {event : Event} (h : Ledger m history deliveryCounts)
    (hevent : ∀ d message handlers, event ≠ .ended d message handlers .deadLettered)
    (after : List Event) (d : Nat) (message : Message) (handlers : List Handler)
    (before : List Event)
    (heq : event :: history = after ++ .ended d message handlers .deadLettered :: before) :
    m ≤ failures message before := by
  cases after with
  | nil =>
      rw [List.nil_append] at heq
      exact absurd (List.cons.inj heq).1 (hevent _ _ _)
  | cons first rest =>
      rw [List.cons_append] at heq
      exact h.exhausted rest d message handlers before (List.cons.inj heq).2

theorem ledger_began (h : Ledger m history deliveryCounts) :
    Ledger m (.began d message :: history)
      (Function.update deliveryCounts message.retryKey
        (deliveryCounts message.retryKey + 1)) := by
  constructor
  · intro key
    by_cases hkey : key = message.retryKey
    · subst hkey
      rw [Function.update_self, countedSince_began, h.counts, List.length_cons]
    · rw [Function.update_of_ne hkey, h.counts, countedSince_cons_of_ne (Ne.symm hkey)]
  · exact exhausted_cons h (fun _ _ _ heq => by cases heq)

theorem ledger_deadLettered (h : Ledger m history deliveryCounts)
    (hnodup : (begunIn history).Nodup) (hfailures : CountsFailures history message)
    (hexceeded : m ≤ deliveryCounts message.retryKey) :
    Ledger m (.ended d message [] .deadLettered :: .began d message :: history)
      (Function.update deliveryCounts message.retryKey 0) := by
  constructor
  · intro key
    by_cases hkey : key = message.retryKey
    · subst hkey
      rw [Function.update_self, countedSince_final (by decide), List.length_nil]
    · rw [Function.update_of_ne hkey, h.counts, countedSince_cons_of_ne (Ne.symm hkey),
        countedSince_cons_of_ne (Ne.symm hkey)]
  · intro after e other handlers before heq
    cases after with
    | nil =>
        rw [List.nil_append] at heq
        obtain ⟨hevent, rfl⟩ := List.cons.inj heq
        cases hevent
        calc m ≤ deliveryCounts message.retryKey := hexceeded
          _ = (countedSince message.retryKey history).length := h.counts _
          _ ≤ failures message history := length_countedSince_le hnodup hfailures
          _ = failures message (.began d message :: history) := rfl
    | cons first rest =>
        rw [List.cons_append] at heq
        exact exhausted_cons h (fun _ _ _ heq => by cases heq) rest e other handlers before
          (List.cons.inj heq).2

theorem ledger_acked (h : Ledger m history deliveryCounts) :
    Ledger m (.ended d message handlers .acked :: history)
      (Function.update deliveryCounts message.retryKey 0) := by
  constructor
  · intro key
    by_cases hkey : key = message.retryKey
    · subst hkey
      rw [Function.update_self, countedSince_final (by decide), List.length_nil]
    · rw [Function.update_of_ne hkey, h.counts, countedSince_cons_of_ne (Ne.symm hkey)]
  · exact exhausted_cons h (fun _ _ _ heq => by cases heq)

theorem ledger_nacked (h : Ledger m history deliveryCounts) :
    Ledger m (.ended d message handlers .nacked :: history) deliveryCounts := by
  constructor
  · intro key
    rw [countedSince_nacked, h.counts]
  · exact exhausted_cons h (fun _ _ _ heq => by cases heq)

/-- The counter of a message whose last event is its acknowledgement or its dead-lettering is
gone. -/
theorem Ledger.gone (h : Ledger m history deliveryCounts) {key : String} {event : Event}
    (hfind : history.find? (fun event => event.message.retryKey = key) = some event)
    (hfinal : event.isFinal = true) : deliveryCounts key = 0 := by
  rw [h.counts key, List.length_eq_zero_iff]
  clear h
  induction history with
  | nil => cases hfind
  | cons first rest ih =>
      rw [List.find?_cons] at hfind
      by_cases hkey : first.message.retryKey = key
      · subst hkey
        simp only [decide_true, Option.some.injEq] at hfind
        subst hfind
        cases first with
        | began d message => cases hfinal
        | ended d message handlers verdict =>
            apply countedSince_final
            simpa [Event.isFinal] using hfinal
      · rw [countedSince_cons_of_ne hkey]
        simp only [hkey, decide_false] at hfind
        exact ih hfind

/-! ## The consumer -/

namespace Consumer

variable {N : Type} [Json.Number N] {s t : Consumer} {maxRetries : Option Nat} {D : Delivery}

variable (N) in
def Calls (D : Delivery) : Prop :=
  match (Json.parse D.message.content : Option (Json N)) with
  | none => ∀ reason, D.call.outcome ≠ some (.error reason)
  | some event =>
      Machine.Reaches (RabbitMqEventBus.step N event)
        (handleMessage N D.handlers D.message.content) D.call

theorem calls_start {message : Message} {handlers : List Handler} {phase : Phase}
    {returned : Bool} :
    Calls N ⟨message, phase, handlers, handleMessage N handlers message.content, returned⟩ := by
  unfold Calls handleMessage
  cases (Json.parse message.content : Option (Json N)) with
  | none =>
      intro reason heq
      cases heq
  | some event => exact .refl

theorem fails_of_calls {reason : Reason} (h : Calls N D)
    (houtcome : D.call.outcome = some (.error reason)) :
    ∃ handler ∈ D.handlers, handler.Fails := by
  unfold Calls handleMessage at h
  cases hparse : (Json.parse D.message.content : Option (Json N)) with
  | none =>
      rw [hparse] at h
      exact absurd houtcome (h reason)
  | some event =>
      rw [hparse] at h
      exact fails_of_fanOut (outcome_of_reaches h houtcome).symm

variable (N) in
structure Tracked (m : Nat) (s : Consumer) : Prop where
  bound : ∀ d D, s.deliveries d = some D → d < s.arrived
  nodup : s.started.Nodup
  begun : ∀ d ∈ s.started, ∃ D, s.deliveries d = some D ∧ D.Begun
  calls : ∀ d D, s.deliveries d = some D → D.phase = .handling → Calls N D
  failed : ∀ d message handlers, .ended d message handlers .nacked ∈ s.history →
    ∃ handler ∈ handlers, handler.Fails
  ledger : Ledger m s.history s.deliveryCounts

theorem tracked_init : Tracked N m {} := by
  constructor
  · intro d D hD
    cases hD
  · exact List.nodup_nil
  · intro d hmem
    cases hmem
  · intro d D hD
    cases hD
  · intro d message handlers hmem
    cases hmem
  · constructor
    · intro key
      rfl
    · intro after d message handlers before heq
      cases after <;> cases heq

/-- A step that notes no event. -/
theorem tracked_quiet (h : Tracked N m s) (hhistory : t.history = s.history)
    (hcounts : t.deliveryCounts = s.deliveryCounts)
    (hbound : ∀ d D, t.deliveries d = some D → d < t.arrived)
    (hbegun : ∀ d D, s.deliveries d = some D → D.Begun →
      ∃ E, t.deliveries d = some E ∧ E.Begun)
    (hcalls : ∀ d D, t.deliveries d = some D → D.phase = .handling → Calls N D) :
    Tracked N m t := by
  have hstarted : t.started = s.started := congrArg (List.filterMap _) hhistory
  refine ⟨hbound, ?_, ?_, hcalls, ?_, ?_⟩
  · rw [hstarted]
    exact h.nodup
  · intro d hmem
    rw [hstarted] at hmem
    obtain ⟨D, hD, hDbegun⟩ := h.begun d hmem
    exact hbegun d D hD hDbegun
  · rw [hhistory]
    exact h.failed
  · rw [hhistory, hcounts]
    exact h.ledger

/-- A delivery is replaced by one that has begun if it had, and that awaits a call of
`_handleMessage` if it handles its message. -/
theorem Tracked.updated (D' : Delivery) (h : Tracked N m s) (hD : s.deliveries d = some D)
    (hbegun : D.Begun → D'.Begun) (hcalls : D'.phase = .handling → Calls N D') :
    (∀ e F, Function.update s.deliveries d (some D') e = some F → e < s.arrived) ∧
      (∀ e E, s.deliveries e = some E → E.Begun →
        ∃ F, Function.update s.deliveries d (some D') e = some F ∧ F.Begun) ∧
      ∀ e F, Function.update s.deliveries d (some D') e = some F → F.phase = .handling →
        Calls N F := by
  refine ⟨fun e F hF => ?_, fun e E hE hEbegun => ?_, fun e F hF => ?_⟩
  · exact forall_of_update (t := s.set d D') rfl (h.bound d D hD) h.bound hF
  · by_cases heq : e = d
    · subst heq
      obtain rfl : D = E := Option.some.inj (hD.symm.trans hE)
      exact ⟨D', Function.update_self .., hbegun hEbegun⟩
    · rw [Function.update_of_ne heq]
      exact ⟨E, hE, hEbegun⟩
  · exact forall_of_update (t := s.set d D') rfl hcalls h.calls hF

/-- The processing of a delivery begins. -/
theorem tracked_process {handlers : List Handler} (h : Tracked N m s)
    (hfresh : d ∉ s.started) (hlt : d < t.arrived)
    (harrived : s.arrived ≤ t.arrived)
    (hdeliveries : t.deliveries = s.deliveries) (hhistory : t.history = s.history)
    (hcounts : t.deliveryCounts = s.deliveryCounts)
    (hfailures : CountsFailures s.history D.message) :
    Tracked N m (t.processDelivery N (some m) d D handlers) := by
  have hbound (E : Delivery) : ∀ e F, Function.update s.deliveries d (some E) e = some F →
      e < t.arrived := by
    intro e F hF
    exact forall_of_update (t := s.set d E) rfl hlt
      (fun e F hF => Nat.lt_of_lt_of_le (h.bound e F hF) harrived) hF
  have hbegun (E : Delivery) (hE : E.Begun) : ∀ e ∈ d :: s.started,
      ∃ F, Function.update s.deliveries d (some E) e = some F ∧ F.Begun := by
    intro e hmem
    by_cases heq : e = d
    · subst heq
      exact ⟨E, Function.update_self .., hE⟩
    · rw [Function.update_of_ne heq]
      exact h.begun e ((List.mem_cons.mp hmem).resolve_left heq)
  unfold processDelivery countDelivery
  rw [hhistory, hcounts]
  by_cases hexceeded : s.deliveryCounts D.message.retryKey + 1 > m
  · simp only [if_pos hexceeded, if_true]
    constructor
    · intro e F hF
      exact hbound _ e F (hdeliveries ▸ hF)
    · exact List.nodup_cons.mpr ⟨hfresh, h.nodup⟩
    · simp only [set, hdeliveries]
      exact hbegun _ (Delivery.Processed.begun ⟨_, rfl⟩)
    · intro e F hF
      simp only [set, hdeliveries] at hF
      exact forall_of_update (t := s.set d _) rfl (fun hhandling => by cases hhandling) h.calls hF
    · intro e message handlers hmem
      simp only [set, List.mem_cons, reduceCtorEq, Event.ended.injEq, and_false, false_or] at hmem
      exact h.failed e message handlers hmem
    · exact ledger_deadLettered h.ledger h.nodup hfailures (by omega)
  · simp only [if_neg hexceeded]
    constructor
    · intro e F hF
      exact hbound _ e F (hdeliveries ▸ hF)
    · exact List.nodup_cons.mpr ⟨hfresh, h.nodup⟩
    · simp only [Bool.false_eq_true, if_false, set, hdeliveries]
      exact hbegun _ fun prior hwaiting => by cases hwaiting
    · intro e F hF
      simp only [Bool.false_eq_true, if_false, set, hdeliveries] at hF
      exact forall_of_update (t := s.set d _) rfl (fun _ => calls_start) h.calls hF
    · intro e message handlers hmem
      simp only [Bool.false_eq_true, if_false, set, List.mem_cons, reduceCtorEq, false_or] at hmem
      exact h.failed e message handlers hmem
    · exact ledger_began h.ledger

/-- The condition on a step: when the processing of a delivery begins, what its counter counts
are failed deliveries of the same message. -/
def Accounts (N : Type) [Json.Number N] (s : Consumer) : Action → Prop
  | .deliver message _ =>
      peekAggregateId N message.content = none → CountsFailures s.history message
  | .start d _ => ∀ D, s.deliveries d = some D → CountsFailures s.history D.message
  | _ => True

theorem tracked_deliver {message : Message} {handlers : List Handler} (h : Tracked N m s)
    (haccounts : Accounts N s (.deliver message handlers))
    (hstep : step N (some m) s (.deliver message handlers) = some t) : Tracked N m t := by
  have hfresh : s.arrived ∉ s.started := by
    intro hmem
    obtain ⟨D, hD, -⟩ := h.begun _ hmem
    exact absurd (h.bound _ D hD) (Nat.lt_irrefl _)
  simp only [step] at hstep
  cases hkey : peekAggregateId N message.content with
  | none =>
      rw [hkey] at hstep
      cases hstep
      exact tracked_process h hfresh (Nat.lt_succ_self _) (Nat.le_succ _) rfl rfl rfl
        (haccounts hkey)
  | some key =>
      rw [hkey] at hstep
      cases hstep
      refine tracked_quiet h rfl rfl (fun e F hF => ?_) (fun e E hE hbegun => ?_)
        (fun e F hF => ?_)
      · exact forall_of_update (Q := fun e _ => e < s.arrived + 1) rfl (Nat.lt_succ_self _)
          (fun e E hE => Nat.lt_succ_of_lt (h.bound e E hE)) hF
      · have hlt := h.bound e E hE
        refine ⟨E, ?_, hbegun⟩
        simp only [set]
        rw [Function.update_of_ne (by omega)]
        exact hE
      · exact forall_of_update rfl (fun hhandling => by cases hhandling) h.calls hF

theorem tracked_start {d : Nat} {handlers : List Handler} (h : Tracked N m s)
    (haccounts : Accounts N s (.start d handlers))
    (hstep : step N (some m) s (.start d handlers) = some t) : Tracked N m t := by
  obtain ⟨D, prior, hD, hphase, -, rfl⟩ := start_spec hstep
  refine tracked_process h (fun hmem => ?_) (h.bound d D hD) (Nat.le_refl _) rfl rfl rfl
    (haccounts D hD)
  obtain ⟨E, hE, hbegun⟩ := h.begun d hmem
  obtain rfl := Option.some.inj (hD.symm.trans hE)
  exact hbegun prior hphase

theorem tracked_handle {d : Nat} {action : Brokers.Action} (h : Tracked N m s)
    (hstep : step N (some m) s (.handle d action) = some t) : Tracked N m t := by
  obtain ⟨D, event, call, hD, hparse, hcall, -, rfl⟩ := handle_spec hstep
  have hcalls : ({ D with call } : Delivery).phase = .handling → Calls N { D with call } := by
    intro hhandling
    have hcalls := h.calls d D hD hhandling
    unfold Calls at hcalls ⊢
    rw [hparse] at hcalls ⊢
    exact hcalls.tail trivial hcall
  obtain ⟨hbound, hbegun, hcalls⟩ :=
    h.updated { D with call } hD (fun hbegun => hbegun) hcalls
  exact tracked_quiet h rfl rfl hbound hbegun hcalls

theorem tracked_finish {d : Nat} (h : Tracked N m s)
    (hstep : step N (some m) s (.finish d) = some t) : Tracked N m t := by
  obtain ⟨D, outcome, hD, houtcome, hphase, rfl⟩ := finish_spec hstep
  have hprocessed (verdict : Verdict) : ({ D with phase := .processed verdict } :
      Delivery).phase = .handling → Calls N { D with phase := .processed verdict } :=
    fun hhandling => by cases hhandling
  obtain ⟨hbound, hbegun, hcalls⟩ := h.updated { D with phase := .processed _ } hD
    (fun _ => Delivery.Processed.begun ⟨_, rfl⟩) (hprocessed _)
  constructor
  · exact hbound
  · exact h.nodup
  · intro e hmem
    obtain ⟨E, hE, hEbegun⟩ := h.begun e hmem
    exact hbegun e E hE hEbegun
  · exact hcalls
  · intro e message handlers hmem
    cases List.mem_cons.mp hmem with
    | inr hold => exact h.failed e message handlers hold
    | inl hnew =>
        obtain ⟨-, -, hhandlers, hverdict⟩ := Event.ended.inj hnew
        rw [hhandlers]
        cases outcome with
        | ok handled => cases hverdict
        | error reason => exact fails_of_calls (h.calls d D hD hphase) houtcome
  · cases outcome with
    | ok handled => exact ledger_acked h.ledger
    | error reason => exact ledger_nacked h.ledger

theorem tracked_leave {d : Nat} (h : Tracked N m s)
    (hstep : step N (some m) s (.leave d) = some t) : Tracked N m t := by
  obtain ⟨D, hD, -, hleaves⟩ := leave_spec hstep
  have hcalls : ({ D with returned := true } : Delivery).phase = .handling →
      Calls N { D with returned := true } := fun hhandling => h.calls d D hD hhandling
  obtain ⟨hbound, hbegun, hcalls⟩ :=
    h.updated { D with returned := true } hD (fun hbegun => hbegun) hcalls
  rcases hleaves with ⟨-, rfl⟩ | ⟨key, -, -, rfl⟩
  · exact tracked_quiet h rfl rfl hbound hbegun hcalls
  · exact tracked_quiet h rfl rfl hbound hbegun hcalls

theorem tracked_step {action : Action} (h : Tracked N m s) (haccounts : Accounts N s action)
    (hstep : step N (some m) s action = some t) : Tracked N m t := by
  cases action with
  | deliver message handlers => exact tracked_deliver h haccounts hstep
  | start d handlers => exact tracked_start h haccounts hstep
  | handle d action => exact tracked_handle h hstep
  | finish d => exact tracked_finish h hstep
  | leave d => exact tracked_leave h hstep

/-! ## The accounting -/

/-- With `maxRetries` at `m`, a delivery is dead-lettered only after `m` failed deliveries of
its message, a message that has not failed is not dead-lettered, and the counter of a message
is gone once it has been acknowledged or dead-lettered. -/
structure DeadLetters (m : Nat) (s : Consumer) : Prop where
  exhausted : ∀ after d message handlers before,
    s.history = after ++ .ended d message handlers .deadLettered :: before →
      m ≤ failures message before
  failed : ∀ d message handlers, .ended d message handlers .nacked ∈ s.history →
    ∃ handler ∈ handlers, handler.Fails
  healthy : ∀ message, failures message s.history = 0 →
    ∀ d handlers, .ended d message handlers .deadLettered ∉ s.history
  gone : ∀ key event,
    s.history.find? (fun event => event.message.retryKey = key) = some event →
      event.isFinal = true → s.deliveryCounts key = 0

theorem failures_append_le (message : Message) (after before : List Event) :
    failures message before ≤ failures message (after ++ before) := by
  simp [failures]

/-- In a run whose steps all meet the condition, dead letters are accounted for. -/
theorem deadLetters_of_run (hm : 0 < m)
    (hrun : Machine.Run (step N (some m)) (Accounts N) {} s) : DeadLetters m s := by
  have h : Tracked N m s := hrun.inv tracked_init fun _ _ _ hinv haccounts hstep =>
    tracked_step hinv haccounts hstep
  refine ⟨h.ledger.exhausted, h.failed, fun message hnone d handlers hmem => ?_,
    fun key event hfind hfinal => h.ledger.gone hfind hfinal⟩
  obtain ⟨after, before, hsplit⟩ := List.append_of_mem hmem
  have hle := h.ledger.exhausted after d message handlers before hsplit
  have hmono := failures_append_le message (after ++ [.ended d message handlers .deadLettered])
    before
  have hhistory : after ++ [.ended d message handlers .deadLettered] ++ before = s.history := by
    rw [hsplit]
    simp
  rw [hhistory, hnone] at hmono
  omega

section Sample

open Noddde.Adapters.Sample

/-- A copy of one event, on the queue of its name. -/
def copyOf (copy : Nat) : Message where
  eventName := "Opened"
  copy
  messageId := some "m"
  content := Json.stringify namedEvent
  digest := ""

theorem peekAggregateId_copyOf (copy : Nat) :
    peekAggregateId (Fin 10) (copyOf copy).content = none := by
  unfold peekAggregateId aggregateId copyOf
  rw [parse_namedEvent]
  rfl

/-- A handler fails, the message is redelivered, and its second delivery is dead-lettered. -/
theorem deadLetters_of_run_redelivered :
    ∃ s, DeadLetters 1 s ∧ s.deliveryCounts "m" = 0 ∧
      s.history = [.ended 1 (copyOf 0) [] .deadLettered, .began 1 (copyOf 0),
        .ended 0 (copyOf 0) [rejecting (.error "down" false)] .nacked, .began 0 (copyOf 0)] := by
  have hplay : (Machine.play (step (Fin 10) (some 1))
      [.deliver (copyOf 0) [rejecting (.error "down" false)], .handle 0 (.settle 0),
        .handle 0 .resume, .finish 0] {}).map
      (fun s => (s.arrived, s.deliveryCounts "m", s.history)) =
        some (1, 1, [.ended 0 (copyOf 0) [rejecting (.error "down" false)] .nacked,
          .began 0 (copyOf 0)]) := by decide +kernel
  obtain ⟨s, hs, hstate⟩ := Option.map_eq_some_iff.mp hplay
  simp only [Prod.mk.injEq] at hstate
  obtain ⟨harrived, hcount, hhistory⟩ := hstate
  have hfailed : Machine.Run (step (Fin 10) (some 1)) (Accounts (Fin 10)) {} s := by
    obtain ⟨first, hfirst, hrest⟩ := Machine.play_cons_eq_some_iff.mp hs
    have haccounts : Accounts (Fin 10) {}
        (.deliver (copyOf 0) [rejecting (.error "down" false)]) := by
      intro _ d other hmem
      cases hmem
    refine (Machine.Run.tail .refl haccounts hfirst).trans
      (Machine.run_of_play (fun action hmem t => ?_) hrest)
    simp only [List.mem_cons, List.not_mem_nil, or_false] at hmem
    rcases hmem with rfl | rfl | rfl <;> trivial
  -- The one delivery that the counter counts has failed.
  have hcounts : CountsFailures s.history (copyOf 0) := by
    rw [hhistory]
    intro d other hmem
    obtain ⟨rfl, rfl⟩ : d = 0 ∧ other = copyOf 0 := by simpa [countedSince] using hmem
    exact ⟨⟨rfl, rfl⟩, _, List.mem_cons_self⟩
  have hstep : step (Fin 10) (some 1) s (.deliver (copyOf 0) []) =
      some (({ s with arrived := s.arrived + 1 } : Consumer).processDelivery (Fin 10) (some 1)
        s.arrived { message := copyOf 0, phase := .waiting none } []) := by
    simp only [step, peekAggregateId_copyOf]
  have hrun := hfailed.tail (C := Accounts (Fin 10)) (a := .deliver (copyOf 0) [])
    (fun _ => hcounts) hstep
  have hkey : (copyOf 0).retryKey = "m" := rfl
  refine ⟨_, deadLetters_of_run Nat.zero_lt_one hrun, ?_, ?_⟩
  · simp [processDelivery, countDelivery, hkey, hcount, set]
  · simp [processDelivery, countDelivery, hkey, hcount, set, harrived, hhistory]

/-- Two copies of one event at once: the second is dead-lettered, and no handler has failed. -/
theorem deadLetters_two_copies :
    ¬ ∀ (m : Nat) (s : Consumer), 0 < m → Reached (Fin 10) (some m) s → DeadLetters m s := by
  intro hall
  have hplay : (Machine.play (step (Fin 10) (some 1))
      [.deliver (copyOf 0) [resolving], .deliver (copyOf 1) [resolving]] {}).map history =
        some [.ended 1 (copyOf 1) [] .deadLettered, .began 1 (copyOf 1),
          .began 0 (copyOf 0)] := by decide +kernel
  obtain ⟨s, hs, hhistory⟩ := Option.map_eq_some_iff.mp hplay
  have hrun := Machine.run_of_play (C := fun _ _ => True) (fun _ _ _ => trivial) hs
  have hle := (hall 1 s Nat.zero_lt_one hrun).exhausted [] 1 (copyOf 1) []
    [.began 1 (copyOf 1), .began 0 (copyOf 0)] hhistory
  exact absurd hle (by decide)

end Sample

end Consumer

end Noddde.Brokers.RabbitMqEventBus
