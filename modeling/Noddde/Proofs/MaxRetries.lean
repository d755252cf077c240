import Noddde.Brokers.Redelivery
import Noddde.Proofs.KafkaOffsets
import Mathlib.Data.List.Range
/-!
# What `maxRetries` means

RabbitMQ and NATS call the handlers of a message that keeps failing in `maxRetries`
deliveries; Kafka does so in one more.
-/

namespace Noddde.Brokers

variable {N : Type} [Json.Number N] {event : Json N} {handlers : List Handler}

theorem calledBy_ne_nil (h : handlers ≠ []) : calledBy handlers ≠ [] := by
  cases handlers with
  | nil => exact absurd rfl h
  | cons handler rest =>
      rw [calledBy]
      cases handler.behaviour with
      | throws reason => simp
      | returns settlement atOnce => simp

theorem ne_nil_of_fails (h : ∃ handler ∈ handlers, handler.Fails) : handlers ≠ [] := by
  obtain ⟨handler, hmem, -⟩ := h
  exact List.ne_nil_of_mem hmem

section Sequence

variable {σ : Type} {deliver : σ → Nat → σ × Outcome} {s : σ} {n : Nat}

/-- Deliveries that all call handlers are counted one by one. -/
theorem length_filter_called (h : ∀ k < n, (outcomeAt deliver s k).called ≠ []) :
    ((List.range n).filter fun k => (outcomeAt deliver s k).called ≠ []).length = n := by
  have hall : ∀ k ∈ List.range n, decide ((outcomeAt deliver s k).called ≠ []) = true := by
    intro k hk
    exact decide_eq_true (h k (List.mem_range.mp hk))
  rw [List.filter_eq_self.mpr hall, List.length_range]

end Sequence

/-! ## A message that keeps failing -/

def RejectsWith (event : Json N) (handlers : List Handler) (reason : Reason) : Prop :=
  reason ≠ .undefined ∧ fanOut event handlers = .ok reason

theorem RejectsWith.bind {reason : Reason} (h : RejectsWith event handlers reason) :
    (fanOut event handlers).bind (rethrow ()) = .error reason := by
  rw [h.2]
  exact if_neg h.1

theorem RejectsWith.called_ne_nil {reason : Reason} (h : RejectsWith event handlers reason) :
    calledBy handlers ≠ [] := by
  apply calledBy_ne_nil
  intro hnil
  have hfan := h.2
  rw [hnil] at hfan
  exact h.1 (Except.ok.inj hfan).symm

variable {m : Nat} {handlersAt : Nat → List Handler} {reasonAt : Nat → Reason}

/-! ## Kafka -/

namespace KafkaEventBus

variable {maxRetries : Option Nat} {location : Location} {deliveries : Nat → Delivery}
  {deliveryCounts : Location → Nat}

theorem countAttempt_le (delivery : Delivery) (reason : Reason) :
    (countAttempt maxRetries location delivery deliveryCounts reason).deliveryCounts location ≤
      deliveryCounts location + 1 := by
  have hcounted : Function.update deliveryCounts location (deliveryCounts location + 1)
      location = deliveryCounts location + 1 := Function.update_self ..
  simp only [countAttempt]
  split_ifs
  · exact Nat.le_succ _
  · exact hcounted.le
  · cases delivery.parkToDlq with
    | error _ => exact hcounted.le
    | ok u =>
        simp only [Function.update_self]
        omega

theorem countAttempt_called (delivery : Delivery) (reason : Reason) :
    (countAttempt maxRetries location delivery deliveryCounts reason).called =
      calledBy delivery.handlers := by
  simp only [countAttempt]
  split_ifs
  · rfl
  · rfl
  · cases delivery.parkToDlq <;> rfl

theorem handleMessageAt_le (delivery : Delivery) :
    (handleMessageAt maxRetries location delivery deliveryCounts
      (some event)).deliveryCounts location ≤ deliveryCounts location + 1 := by
  simp only [handleMessageAt]
  cases fanOut event delivery.handlers with
  | error thrown => exact Nat.le_succ _
  | ok reason => exact countAttempt_le delivery reason

theorem handleMessageAt_called (delivery : Delivery) :
    (handleMessageAt maxRetries location delivery deliveryCounts (some event)).called =
      calledBy delivery.handlers := by
  simp only [handleMessageAt]
  cases fanOut event delivery.handlers with
  | error thrown => rfl
  | ok reason => exact countAttempt_called delivery reason

/-- A message is parked only when its attempts are used up. -/
theorem le_of_parked (delivery : Delivery)
    (h : (handleMessageAt maxRetries location delivery deliveryCounts
      (some event)).parked = true) :
    maxRetries.getD DEFAULT_MAX_RETRIES ≤ deliveryCounts location := by
  simp only [handleMessageAt] at h
  cases hfan : fanOut event delivery.handlers with
  | error thrown => rw [hfan] at h; cases h
  | ok reason =>
      rw [hfan] at h
      simp only [countAttempt] at h
      split_ifs at h with _ hmore
      · omega

theorem stateAt_le (n : Nat) :
    stateAt (deliver maxRetries location (some event) deliveries) (fun _ => 0) n location ≤
      n := by
  induction n with
  | zero => exact Nat.le_refl 0
  | succ n ih =>
      have hstep : stateAt (deliver maxRetries location (some event) deliveries) (fun _ => 0)
          (n + 1) location ≤
          stateAt (deliver maxRetries location (some event) deliveries) (fun _ => 0) n
            location + 1 := handleMessageAt_le (deliveries n)
      exact Nat.le_trans hstep (Nat.succ_le_succ ih)

/-- The handlers of a message that is parked were called in more than `maxRetries`
deliveries. -/
theorem not_givesUpAfter (hfails : ∀ n, ∃ handler ∈ (deliveries n).handlers, handler.Fails) :
    ¬ GivesUpAfter (deliver maxRetries location (some event) deliveries) (fun _ => 0)
      (maxRetries.getD DEFAULT_MAX_RETRIES) := by
  intro h
  obtain ⟨n, -, hfate, hlength⟩ := h
  have hcalled : ∀ k < n + 1, (outcomeAt (deliver maxRetries location (some event) deliveries)
      (fun _ => 0) k).called ≠ [] := by
    intro k _
    have heq : (outcomeAt (deliver maxRetries location (some event) deliveries)
        (fun _ => 0) k).called = calledBy (deliveries k).handlers :=
      handleMessageAt_called (deliveries k)
    rw [heq]
    exact calledBy_ne_nil (ne_nil_of_fails (hfails k))
  rw [length_filter_called hcalled] at hlength
  have hparked : (handleMessageAt maxRetries location (deliveries n)
      (stateAt (deliver maxRetries location (some event) deliveries) (fun _ => 0) n)
      (some event)).parked = true := by
    by_contra hnot
    simp only [outcomeAt, deliver, fate] at hfate
    split at hfate
    · rw [if_neg hnot] at hfate
      cases hfate
    · split_ifs at hfate
  have hle := le_of_parked (deliveries n) hparked
  have hbound : stateAt (deliver maxRetries location (some event) deliveries) (fun _ => 0) n
      location ≤ n := stateAt_le n
  omega

/-- The handlers of a message that keeps failing are called in `m + 1` deliveries. -/
theorem givesUpAfter_succ (h : ∀ n, RejectsWith event (deliveries n).handlers (reasonAt n))
    (hflag : ∀ n, Flaggable (reasonAt n)) (hpark : ∀ n, (deliveries n).parkToDlq = .ok ()) :
    GivesUpAfter (deliver (some m) location (some event) deliveries) (fun _ => 0) (m + 1) := by
  have hhandle (counts : Location → Nat) (n : Nat) :
      handleMessageAt (some m) location (deliveries n) counts (some event) =
        countAttempt (some m) location (deliveries n) counts (reasonAt n) := by
    simp only [handleMessageAt, (h n).2]
  have hretry (counts : Location → Nat) (n : Nat) (hlt : counts location < m) :
      deliver (some m) location (some event) deliveries counts n =
        (Function.update counts location (counts location + 1),
          ⟨calledBy (deliveries n).handlers, .redelivered⟩) := by
    have hmore : counts location + 1 ≤ m := hlt
    have hretriable : (markRetriable (reasonAt n)).retriable = true := hflag n
    simp [deliver, hhandle, countAttempt, (h n).1, hmore, fate, hretriable]
  have hcount : ∀ n ≤ m, stateAt (deliver (some m) location (some event) deliveries)
      (fun _ => 0) n location = n := by
    intro n
    induction n with
    | zero => exact fun _ => rfl
    | succ n ih =>
        intro hle
        have hn := ih (by omega)
        rw [stateAt, hretry _ n (by omega)]
        simp only [Function.update_self, hn]
  have hcalled (k : Nat) : (outcomeAt (deliver (some m) location (some event) deliveries)
      (fun _ => 0) k).called ≠ [] := by
    show (handleMessageAt (some m) location (deliveries k) _ (some event)).called ≠ []
    rw [handleMessageAt_called]
    exact (h k).called_ne_nil
  refine ⟨m, fun k hk => ?_, ?_, length_filter_called fun k _ => hcalled k⟩
  · have hn := hcount k (by omega)
    rw [outcomeAt, hretry _ k (by omega)]
  · have hn := hcount m (Nat.le_refl m)
    have hmore : ¬ m + 1 ≤ m := by omega
    simp [outcomeAt, deliver, hhandle, countAttempt, (h m).1, hn, hmore, fate, hpark]

end KafkaEventBus

/-! ## RabbitMQ and NATS -/

namespace RabbitMqEventBus

variable {retryKey : String}

theorem deliver_of_lt {deliveryCounts : DeliveryCounts} {n : Nat}
    (h : RejectsWith event (handlersAt n) (reasonAt n)) (hlt : deliveryCounts retryKey < m) :
    deliver (some m) retryKey (some event) handlersAt deliveryCounts n =
      (Function.update deliveryCounts retryKey (deliveryCounts retryKey + 1),
        ⟨calledBy (handlersAt n), .redelivered⟩) := by
  have hnot : ¬ deliveryCounts retryKey + 1 > m := by omega
  simp [deliver, countDelivery, hnot, h.bind]

/-- The handlers of a message that keeps failing are called in `m` deliveries. -/
theorem givesUpAfter (h : ∀ n, RejectsWith event (handlersAt n) (reasonAt n)) :
    GivesUpAfter (deliver (some m) retryKey (some event) handlersAt) (fun _ => 0) m := by
  have hcount : ∀ n ≤ m,
      stateAt (deliver (some m) retryKey (some event) handlersAt) (fun _ => 0) n retryKey =
        n := by
    intro n
    induction n with
    | zero => exact fun _ => rfl
    | succ n ih =>
        intro hle
        have hn := ih (by omega)
        rw [stateAt, deliver_of_lt (h n) (by omega)]
        simp only [Function.update_self, hn]
  have hbefore : ∀ k < m, outcomeAt (deliver (some m) retryKey (some event) handlersAt)
      (fun _ => 0) k = ⟨calledBy (handlersAt k), .redelivered⟩ := by
    intro k hk
    have hn := hcount k (by omega)
    rw [outcomeAt, deliver_of_lt (h k) (by omega)]
  have hlast : outcomeAt (deliver (some m) retryKey (some event) handlersAt)
      (fun _ => 0) m = ⟨[], .givenUp⟩ := by
    simp [outcomeAt, deliver, countDelivery, hcount m (Nat.le_refl m)]
  refine ⟨m, fun k hk => ?_, ?_, ?_⟩
  · rw [hbefore k hk]
  · rw [hlast]
  · rw [List.range_succ, List.filter_append, List.length_append,
      length_filter_called fun k hk => ?_, List.filter_singleton, hlast]
    · rfl
    · rw [hbefore k hk]
      exact (h k).called_ne_nil

end RabbitMqEventBus

namespace NatsEventBus

theorem consume_of_rejects {n : Nat} {reason : Reason} (hproper : event.Proper)
    (h : RejectsWith event handlers reason) (hprint : reason.print = .ok ()) :
    consume (some m) n handlers (some event) =
      ⟨calledBy handlers, if m ≤ n then .givenUp else .redelivered⟩ := by
  simp only [consume, Json.parse_stringify hproper, h.bind, hprint, Option.any_some,
    decide_eq_true_eq]
  split_ifs <;> rfl

/-- The handlers of a message that keeps failing are called in `m` deliveries. -/
theorem givesUpAfter (hm : 1 ≤ m) (hproper : event.Proper)
    (h : ∀ n, RejectsWith event (handlersAt n) (reasonAt n))
    (hprint : ∀ n, (reasonAt n).print = .ok ()) :
    GivesUpAfter (deliver (some m) (some event) handlersAt) () m := by
  have houtcome (k : Nat) : outcomeAt (deliver (some m) (some event) handlersAt) () k =
      ⟨calledBy (handlersAt k), if m ≤ k + 1 then .givenUp else .redelivered⟩ :=
    consume_of_rejects hproper (h k) (hprint k)
  refine ⟨m - 1, fun k hk => ?_, ?_, ?_⟩
  · rw [houtcome]
    exact if_neg (by omega)
  · rw [houtcome]
    exact if_pos (by omega)
  · rw [length_filter_called fun k _ => ?_]
    · omega
    · rw [houtcome]
      exact (h k).called_ne_nil

end NatsEventBus

/-! ## The three buses -/

/-- With `maxRetries` at `m`, the three buses do not all give up a message whose handlers fail
on every delivery after `m` deliveries that call them: Kafka does not. -/
theorem maxRetries_differs (m : Nat) (event : Json N) (location : KafkaEventBus.Location)
    (parkToDlq : Nat → Settlement) (retryKey : String) (handlersAt : Nat → List Handler)
    (hfails : ∀ n, ∃ handler ∈ handlersAt n, handler.Fails) :
    ¬ (GivesUpAfter
          (KafkaEventBus.deliver (some m) location (some event) fun n =>
            { handlers := handlersAt n, parkToDlq := parkToDlq n }) (fun _ => 0) m ∧
        GivesUpAfter (RabbitMqEventBus.deliver (some m) retryKey (some event) handlersAt)
          (fun _ => 0) m ∧
        GivesUpAfter (NatsEventBus.deliver (some m) (some event) handlersAt) () m) := by
  intro h
  exact KafkaEventBus.not_givesUpAfter hfails h.1

section Sample

open Noddde.Adapters.Sample

def openedAt : KafkaEventBus.Location := ⟨⟨"Opened", 0⟩, 0⟩

theorem rejecting_fails (n : Nat) :
    ∃ handler ∈ (fun _ : Nat => [rejecting (.error "down" false)]) n, handler.Fails :=
  ⟨_, List.mem_singleton_self _, .error "down" false, rfl⟩

theorem maxRetries_differs_two :
    ¬ (GivesUpAfter
          (KafkaEventBus.deliver (some 2) openedAt (some namedEvent) fun _ =>
            { handlers := [rejecting (.error "down" false)], parkToDlq := .ok () })
          (fun _ => 0) 2 ∧
        GivesUpAfter (RabbitMqEventBus.deliver (some 2) "m" (some namedEvent) fun _ =>
          [rejecting (.error "down" false)]) (fun _ => 0) 2 ∧
        GivesUpAfter (NatsEventBus.deliver (some 2) (some namedEvent) fun _ =>
          [rejecting (.error "down" false)]) () 2) :=
  maxRetries_differs 2 namedEvent openedAt (fun _ => .ok ()) "m"
    (fun _ => [rejecting (.error "down" false)]) rejecting_fails

/-- With `maxRetries` at 2, Kafka parks on the third delivery. -/
theorem maxRetries_kafka_third :
    ¬ ∀ (m : Nat) (event : Json (Fin 10)) (location : KafkaEventBus.Location)
        (retryKey : String) (handlersAt : Nat → List Handler), 1 ≤ m →
      (∀ n, ∃ handler ∈ handlersAt n, handler.Fails) →
      GivesUpAfter
          (KafkaEventBus.deliver (some m) location (some event) fun n =>
            { handlers := handlersAt n }) (fun _ => 0) m ∧
        GivesUpAfter (RabbitMqEventBus.deliver (some m) retryKey (some event) handlersAt)
          (fun _ => 0) m ∧
        GivesUpAfter (NatsEventBus.deliver (some m) (some event) handlersAt) () m := by
  intro hall
  have hkafka := (hall 2 namedEvent openedAt "m" (fun _ => [rejecting (.error "down" false)])
    (by decide) rejecting_fails).1
  have hnot := @KafkaEventBus.not_givesUpAfter _ _ namedEvent (some 2) openedAt
    (fun _ => { handlers := [rejecting (.error "down" false)] }) rejecting_fails
  exact hnot hkafka

end Sample

end Noddde.Brokers
