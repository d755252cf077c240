import Mathlib.Data.List.Count
import Mathlib.Data.List.Perm.Basic
import Noddde.Brokers.RabbitMqTopology
/-!
# Which handlers an event reaches

A consumer calls the handlers of the name of its queue.  That is the name of the event, if all
queues that have a binding for the name are queues of that name.
-/

namespace Noddde.Brokers.RabbitMqEventBus.Topology

variable {H : Type} {deployment : Deployment H} {s t : State H} {eventName : JsString}
  {consumer bound : Consumer}

/-! ## The broker -/

structure SetUp (consumers : List Consumer) (broker : Broker) : Prop where
  nodup : broker.queues.Nodup
  queues : ∀ queueName, queueName ∈ broker.queues ↔
    ∃ consumer ∈ consumers, consumer.queueName = queueName
  bindings : ∀ binding, binding ∈ broker.bindings ↔
    ∃ consumer ∈ consumers, (consumer.queueName, consumer.eventName) = binding
  consumers : ∀ pair, pair ∈ broker.consumers ↔
    ∃ consumer ∈ consumers, (consumer.queueName, consumer) = pair

theorem mem_assertQueue {broker : Broker} {queueName other : JsString} :
    other ∈ (broker.assertQueue queueName).queues ↔ other ∈ broker.queues ∨ queueName = other := by
  unfold Broker.assertQueue
  simp only [List.contains_iff_mem]
  split_ifs with hmem
  · constructor
    · exact .inl
    · rintro (hother | rfl)
      · exact hother
      · exact hmem
  · rw [List.mem_append, List.mem_singleton, eq_comm]

theorem nodup_assertQueue {broker : Broker} (h : broker.queues.Nodup) (queueName : JsString) :
    (broker.assertQueue queueName).queues.Nodup := by
  unfold Broker.assertQueue
  simp only [List.contains_iff_mem]
  split_ifs with hmem
  · exact h
  · exact List.nodup_append.mpr ⟨h, List.nodup_singleton _, by
      intro a ha b hb
      rw [List.mem_singleton] at hb
      rintro rfl
      exact hmem (hb ▸ ha)⟩

theorem mem_bindQueue {broker : Broker} {queueName bindingKey : JsString}
    {binding : JsString × JsString} :
    binding ∈ (broker.bindQueue queueName bindingKey).bindings ↔
      binding ∈ broker.bindings ∨ (queueName, bindingKey) = binding := by
  unfold Broker.bindQueue
  simp only [List.contains_iff_mem]
  split_ifs with hmem
  · constructor
    · exact .inl
    · rintro (hother | rfl)
      · exact hother
      · exact hmem
  · rw [List.mem_append, List.mem_singleton, eq_comm]

theorem queues_bindQueue (broker : Broker) (queueName bindingKey : JsString) :
    (broker.bindQueue queueName bindingKey).queues = broker.queues := by
  unfold Broker.bindQueue
  split_ifs <;> rfl

theorem bindings_assertQueue (broker : Broker) (queueName : JsString) :
    (broker.assertQueue queueName).bindings = broker.bindings := by
  unfold Broker.assertQueue
  split_ifs <;> rfl

theorem consumers_assert_bind (broker : Broker) (queueName bindingKey : JsString) :
    ((broker.assertQueue queueName).bindQueue queueName bindingKey).consumers =
      broker.consumers := by
  unfold Broker.bindQueue Broker.assertQueue
  split_ifs <;> rfl

theorem setUp_nil : SetUp [] {} := by
  refine ⟨List.nodup_nil, ?_, ?_, ?_⟩ <;> simp

theorem SetUp.setupConsumer {consumers : List Consumer} {broker : Broker}
    (h : SetUp consumers broker) (consumer : Consumer) :
    SetUp (consumers ++ [consumer]) (broker.setupConsumer consumer) := by
  have hsplit (p : Consumer → Prop) : (∃ other ∈ consumers ++ [consumer], p other) ↔
      (∃ other ∈ consumers, p other) ∨ p consumer := by
    simp [or_and_right, exists_or]
  refine ⟨?_, fun queueName => ?_, fun binding => ?_, fun pair => ?_⟩
  · show (Broker.bindQueue _ _ _).queues.Nodup
    rw [queues_bindQueue]
    exact nodup_assertQueue h.nodup _
  · rw [hsplit, ← h.queues]
    show queueName ∈ (Broker.bindQueue _ _ _).queues ↔ _
    rw [queues_bindQueue, mem_assertQueue]
  · rw [hsplit, ← h.bindings]
    show binding ∈ (Broker.bindQueue _ _ _).bindings ↔ _
    rw [mem_bindQueue, bindings_assertQueue]
  · rw [hsplit, ← h.consumers]
    show pair ∈ (Broker.bindQueue _ _ _).consumers ++ [(consumer.queueName, consumer)] ↔ _
    rw [consumers_assert_bind, List.mem_append, List.mem_singleton, eq_comm (b := pair)]

theorem setUp_foldl {consumers more : List Consumer} {broker : Broker}
    (h : SetUp consumers broker) :
    SetUp (consumers ++ more) (more.foldl Broker.setupConsumer broker) := by
  induction more generalizing consumers broker with
  | nil =>
      rw [List.append_nil]
      exact h
  | cons consumer rest ih =>
      rw [List.append_cons]
      exact ih (h.setupConsumer consumer)

theorem setUp (deployment : Deployment H) : SetUp deployment.consumers deployment.broker :=
  setUp_foldl setUp_nil

theorem mem_route {queueName : JsString} : queueName ∈ deployment.route eventName ↔
    ∃ bound ∈ deployment.consumers, bound.queueName = queueName ∧
      deployment.exchangeType.Routes bound.eventName eventName := by
  unfold Deployment.route Broker.route
  rw [List.mem_filter, decide_eq_true_eq, (setUp deployment).queues]
  constructor
  · rintro ⟨-, binding, hbinding, rfl, hroutes⟩
    obtain ⟨bound, hbound, rfl⟩ := ((setUp deployment).bindings binding).mp hbinding
    exact ⟨bound, hbound, rfl, hroutes⟩
  · rintro ⟨bound, hbound, rfl, hroutes⟩
    exact ⟨⟨bound, hbound, rfl⟩, _, ((setUp deployment).bindings _).mpr ⟨bound, hbound, rfl⟩,
      rfl, hroutes⟩

theorem nodup_route : (deployment.route eventName).Nodup :=
  (setUp deployment).nodup.filter _

theorem readWord_cases (word : JsString) :
    readWord word = .word word ∨ readWord word = .one ∨ readWord word = .any := by
  unfold readWord
  split_ifs
  · exact .inr (.inl rfl)
  · exact .inr (.inr rfl)
  · exact .inl rfl

theorem routes_self (exchangeType : ExchangeType) (key : JsString) :
    exchangeType.Routes key key := by
  cases exchangeType with
  | topic => exact PatternWord.matches_read readWord_cases (words key)
  | fanout => trivial

/-! ## The buses -/

theorem registered_ne_nil {calls : List (JsString × H)} {handlers : List H}
    (h : (registered calls).get eventName = some handlers) : handlers ≠ [] := by
  have hgo : ∀ start : InsertionMap JsString (List H),
      (∀ name handlers, start.get name = some handlers → handlers ≠ []) →
        ∀ name handlers, (calls.foldl (fun handlers call => on handlers call.1 call.2) start).get
          name = some handlers → handlers ≠ [] := by
    clear h
    induction calls with
    | nil => exact fun start hstart => hstart
    | cons call rest ih =>
        intro start hstart
        refine ih (on start call.1 call.2) fun name handlers hget => ?_
        have hset (value : List H) (hvalue : value ≠ [])
            (hname : (start.set call.1 value).get name = some handlers) : handlers ≠ [] := by
          rw [InsertionMap.get_set] at hname
          split_ifs at hname
          · cases hname
            exact hvalue
          · exact hstart name handlers hname
        unfold on at hget
        cases hcall : start.get call.1 with
        | none =>
            rw [hcall] at hget
            exact hset _ (List.cons_ne_nil _ _) hget
        | some existing =>
            rw [hcall] at hget
            exact hset _ (List.append_ne_nil_of_right_ne_nil existing (List.cons_ne_nil _ _)) hget
  refine hgo ∅ (fun name handlers hget => ?_) eventName handlers h
  rw [InsertionMap.get_empty] at hget
  cases hget

theorem handlersOf_of_not_mem {queuePrefix : JsString} (h : queuePrefix ∉ deployment.buses.keys)
    (name : JsString) : (deployment.handlersOf queuePrefix).get name = none := by
  have hnone : deployment.buses.get queuePrefix = none := by
    rw [Option.eq_none_iff_forall_ne_some]
    exact fun calls hcalls => h ((InsertionMap.mem_keys_iff _ _).mpr ⟨calls, hcalls⟩)
  unfold Deployment.handlersOf
  rw [hnone]
  rfl

/-- The consumers are those of the names with handlers. -/
theorem mem_consumers : consumer ∈ deployment.consumers ↔
    ∃ handlers, (deployment.handlersOf consumer.queuePrefix).get consumer.eventName =
      some handlers := by
  unfold Deployment.consumers
  rw [List.mem_flatMap]
  constructor
  · rintro ⟨queuePrefix, -, hmem⟩
    obtain ⟨name, hname, rfl⟩ := List.mem_map.mp hmem
    exact (InsertionMap.mem_keys_iff _ _).mp hname
  · rintro ⟨handlers, hget⟩
    refine ⟨consumer.queuePrefix, ?_, List.mem_map.mpr
      ⟨consumer.eventName, (InsertionMap.mem_keys_iff _ _).mpr ⟨handlers, hget⟩, rfl⟩⟩
    by_contra hnot
    rw [handlersOf_of_not_mem hnot] at hget
    cases hget

/-! ## One event -/

theorem mem_handleMessage {event : Nat} {invocation : Invocation H}
    (h : invocation ∈ (s.handleMessage deployment consumer event).handed) :
    invocation ∈ s.handed ∨ invocation.queuePrefix = consumer.queuePrefix ∧
      invocation.eventName = consumer.eventName ∧ invocation.event = event := by
  refine (List.mem_append.mp h).imp_right fun hnew => ?_
  obtain ⟨handler, -, rfl⟩ := List.mem_map.mp hnew
  exact ⟨rfl, rfl, rfl⟩

theorem handedTo_handleMessage_self {handlers : List H} {event : Nat}
    (h : (deployment.handlersOf consumer.queuePrefix).get consumer.eventName = some handlers) :
    (s.handleMessage deployment consumer event).handedTo consumer.queuePrefix consumer.eventName
      event = s.handedTo consumer.queuePrefix consumer.eventName event ++ handlers := by
  unfold State.handedTo State.handleMessage
  rw [h, Option.getD_some, List.filter_append, List.map_append]
  congr 1
  rw [List.filter_eq_self.mpr, List.map_map]
  · exact List.map_id handlers
  · intro invocation hmem
    obtain ⟨handler, -, rfl⟩ := List.mem_map.mp hmem
    simp

theorem handedTo_handleMessage_of_ne {queuePrefix name : JsString} {event other : Nat}
    (h : ¬ (consumer.queuePrefix = queuePrefix ∧ consumer.eventName = name ∧ event = other)) :
    (s.handleMessage deployment consumer event).handedTo queuePrefix name other =
      s.handedTo queuePrefix name other := by
  unfold State.handedTo State.handleMessage
  rw [List.filter_append]
  congr 1
  rw [List.append_right_eq_self, List.filter_eq_nil_iff]
  intro invocation hmem
  obtain ⟨handler, -, rfl⟩ := List.mem_map.mp hmem
  simpa using h

structure Inv (deployment : Deployment H) (s : State H) : Prop where
  queued : ∀ copy ∈ s.queued, ∃ eventName, s.published[copy.2]? = some eventName ∧
    copy.1 ∈ deployment.route eventName
  named : ∀ invocation ∈ s.handed, s.published[invocation.event]? = some invocation.eventName
  once : ∀ event eventName, s.published[event]? = some eventName →
    ∀ consumer ∈ deployment.consumers, consumer.eventName = eventName →
      s.queued.count (consumer.queueName, event) = 1 ∧
          s.handedTo consumer.queuePrefix eventName event = [] ∨
        s.queued.count (consumer.queueName, event) = 0 ∧
          (deployment.handlersOf consumer.queuePrefix).get eventName =
            some (s.handedTo consumer.queuePrefix eventName event)

theorem inv_init : Inv deployment {} := by
  refine ⟨?_, ?_, ?_⟩
  · intro copy hmem
    cases hmem
  · intro invocation hmem
    cases hmem
  · intro event eventName hget
    cases hget

theorem delivered_of_inv (h : Inv deployment s) : s.Delivered deployment := by
  refine ⟨h.named, fun hempty event eventName hget queuePrefix handlers hhandlers => ?_⟩
  have hmem : ⟨queuePrefix, eventName⟩ ∈ deployment.consumers :=
    mem_consumers.mpr ⟨handlers, hhandlers⟩
  cases h.once event eventName hget _ hmem rfl with
  | inl hqueued =>
      rw [hempty] at hqueued
      cases hqueued.1
  | inr hhanded => exact Option.some.inj (hhanded.2.symm.trans hhandlers)

theorem count_copies (queues : List JsString) (queueName : JsString) (event other : Nat) :
    (queues.map fun queueName => (queueName, event)).count (queueName, other) =
      if event = other then queues.count queueName else 0 := by
  split_ifs with heq
  · subst heq
    exact List.count_map_of_injective queues (fun queueName => (queueName, event))
      (fun _ _ hpair => (Prod.mk.inj hpair).1) queueName
  · rw [List.count_eq_zero]
    intro hmem
    obtain ⟨_, -, hpair⟩ := List.mem_map.mp hmem
    exact heq (Prod.mk.inj hpair).2

theorem inv_publish (hinv : Inv deployment s) (eventName : JsString) :
    Inv deployment (s.publish deployment eventName) := by
  have hold {event : Nat} {name : JsString} (h : s.published[event]? = some name) :
      (s.published ++ [eventName])[event]? = some name :=
    List.getElem?_append_left (List.getElem?_eq_some_iff.mp h).1 ▸ h
  have hnew : (s.published ++ [eventName])[s.published.length]? = some eventName :=
    List.getElem?_concat_length
  refine ⟨fun copy hmem => ?_, fun invocation hmem => hold (hinv.named invocation hmem),
    fun event name hget consumer hconsumer hname => ?_⟩
  · cases List.mem_append.mp hmem with
    | inl hqueued =>
        obtain ⟨name, hget, hroute⟩ := hinv.queued copy hqueued
        exact ⟨name, hold hget, hroute⟩
    | inr hcopy =>
        obtain ⟨queueName, hroute, rfl⟩ := List.mem_map.mp hcopy
        exact ⟨eventName, hnew, hroute⟩
  · have hcount : (s.publish deployment eventName).queued.count (consumer.queueName, event) =
        s.queued.count (consumer.queueName, event) +
          if s.published.length = event then
            (deployment.route eventName).count consumer.queueName
          else 0 := by
      show (s.queued ++ _).count _ = _
      rw [List.count_append, count_copies]
    rw [hcount]
    by_cases heq : s.published.length = event
    · subst heq
      obtain rfl : eventName = name := Option.some.inj (hnew.symm.trans hget)
      have hqueue : (deployment.route eventName).count consumer.queueName = 1 :=
        List.count_eq_one_of_mem nodup_route
          (mem_route.mpr ⟨consumer, hconsumer, rfl, hname ▸ routes_self _ _⟩)
      have hnone : s.queued.count (consumer.queueName, s.published.length) = 0 := by
        rw [List.count_eq_zero]
        intro hmem
        obtain ⟨other, hother, -⟩ := hinv.queued _ hmem
        rw [List.getElem?_eq_none (Nat.le_refl _)] at hother
        cases hother
      rw [if_pos rfl, hqueue, hnone]
      refine .inl ⟨rfl, List.map_eq_nil_iff.mpr (List.filter_eq_nil_iff.mpr ?_)⟩
      intro invocation hmem hmatch
      have hevent : invocation.event = s.published.length := by
        simp only [decide_eq_true_eq] at hmatch
        exact hmatch.2.2
      have hnamed := hinv.named invocation hmem
      rw [hevent, List.getElem?_eq_none (Nat.le_refl _)] at hnamed
      cases hnamed
    · rw [if_neg heq, Nat.add_zero]
      refine hinv.once event name ?_ consumer hconsumer hname
      have hlt : event < (s.published ++ [eventName]).length :=
        (List.getElem?_eq_some_iff.mp hget).1
      rw [List.length_append, List.length_singleton] at hlt
      have hlt' : event < s.published.length := by omega
      have hleft : (s.published ++ [eventName])[event]? = s.published[event]? :=
        List.getElem?_append_left hlt'
      exact hleft ▸ hget

/-- A copy goes to a consumer of its queue. -/
theorem deliver_eq {index : Nat} (hstep : step deployment s (.deliver index consumer) = some t) :
    ∃ event, s.queued[index]? = some (consumer.queueName, event) ∧
      consumer ∈ deployment.consumers ∧
      t = { s.handleMessage deployment consumer event with queued := s.queued.eraseIdx index } := by
  rw [step] at hstep
  cases hget : s.queued[index]? with
  | none =>
      rw [hget] at hstep
      cases hstep
  | some copy =>
      obtain ⟨queueName, event⟩ := copy
      rw [hget] at hstep
      dsimp only at hstep
      split_ifs at hstep with hmem
      obtain ⟨other, hother, hpair⟩ := ((setUp deployment).consumers _).mp hmem
      obtain ⟨rfl, rfl⟩ := Prod.mk.inj hpair
      exact ⟨event, rfl, hother, (Option.some.inj hstep).symm⟩

theorem queueName_inj {other : Consumer} (hname : consumer.eventName = other.eventName)
    (hqueue : consumer.queueName = other.queueName) : consumer = other := by
  obtain ⟨queuePrefix, name⟩ := consumer
  obtain ⟨otherPrefix, otherName⟩ := other
  obtain rfl : name = otherName := hname
  obtain rfl : queuePrefix = otherPrefix := List.append_cancel_right hqueue
  rfl

/-- On a queue that gets an event there are only consumers for its name. -/
theorem eventName_of_route (hdisciplined : Disciplined deployment eventName)
    (hroute : consumer.queueName ∈ deployment.route eventName)
    (hconsumer : consumer ∈ deployment.consumers) : consumer.eventName = eventName := by
  obtain ⟨bound, hbound, hqueue, hroutes⟩ := mem_route.mp hroute
  exact hdisciplined bound hbound hroutes consumer hconsumer hqueue.symm

theorem inv_deliver {index event : Nat} (hinv : Inv deployment s)
    (hdisciplined : ∀ name ∈ s.published, Disciplined deployment name)
    (hget : s.queued[index]? = some (consumer.queueName, event))
    (hconsumer : consumer ∈ deployment.consumers) :
    Inv deployment
      { s.handleMessage deployment consumer event with queued := s.queued.eraseIdx index } := by
  obtain ⟨eventName, hpublished, hroute⟩ := hinv.queued _ (List.mem_of_getElem? hget)
  have hname : consumer.eventName = eventName :=
    eventName_of_route (hdisciplined eventName (List.mem_of_getElem? hpublished)) hroute hconsumer
  have hperm : List.Perm ((consumer.queueName, event) :: s.queued.eraseIdx index) s.queued := by
    obtain ⟨hlt, heq⟩ := List.getElem?_eq_some_iff.mp hget
    rw [← heq]
    exact List.getElem_cons_eraseIdx_perm hlt
  refine ⟨fun copy hmem => hinv.queued copy (List.mem_of_mem_eraseIdx hmem),
    fun invocation hmem => ?_, fun other name hother peer hpeer hpeername => ?_⟩
  · cases mem_handleMessage hmem with
    | inl hold => exact hinv.named invocation hold
    | inr hnew =>
        obtain ⟨-, hinvoked, hevent⟩ := hnew
        show s.published[invocation.event]? = some invocation.eventName
        rw [hevent, hinvoked, hname]
        exact hpublished
  · have hcount := hperm.count_eq (peer.queueName, other)
    rw [List.count_cons] at hcount
    have hold := hinv.once other name hother peer hpeer hpeername
    by_cases hsame : consumer = peer ∧ event = other
    · obtain ⟨rfl, rfl⟩ := hsame
      obtain rfl : eventName = name := Option.some.inj (hpublished.symm.trans hother)
      rw [if_pos (by simp)] at hcount
      have hnone : s.handedTo consumer.queuePrefix eventName event = [] := by
        cases hold with
        | inl hqueued => exact hqueued.2
        | inr hhanded =>
            have hzero := hhanded.1
            omega
      have hone : s.queued.count (consumer.queueName, event) = 1 := by
        cases hold with
        | inl hqueued => exact hqueued.1
        | inr hhanded =>
            have hzero := hhanded.1
            omega
      obtain ⟨handlers, hhandlers⟩ := mem_consumers.mp hconsumer
      refine .inr ⟨?_, ?_⟩
      · show (s.queued.eraseIdx index).count _ = 0
        omega
      · show _ = some ((s.handleMessage deployment consumer event).handedTo _ _ _)
        have hself : (s.handleMessage deployment consumer event).handedTo consumer.queuePrefix
            consumer.eventName event = _ := handedTo_handleMessage_self hhandlers
        rw [← hname] at hnone ⊢
        rw [hself, hnone, List.nil_append]
        exact hhandlers
    · -- another queue, or another event
      have hne : ¬ ((consumer.queueName, event) == (peer.queueName, other)) = true := by
        rw [beq_iff_eq]
        intro hpair
        obtain ⟨hqueue, rfl⟩ := Prod.mk.inj hpair
        obtain rfl : eventName = name := Option.some.inj (hpublished.symm.trans hother)
        exact hsame ⟨queueName_inj (hname.trans hpeername.symm) hqueue, rfl⟩
      rw [if_neg hne, Nat.add_zero] at hcount
      have hhanded : (s.handleMessage deployment consumer event).handedTo peer.queuePrefix name
          other = s.handedTo peer.queuePrefix name other := by
        refine handedTo_handleMessage_of_ne ?_
        rintro ⟨hbus, heventName, hevent⟩
        refine hsame ⟨?_, hevent⟩
        obtain ⟨queuePrefix, consumerName⟩ := consumer
        obtain ⟨peerPrefix, peerName⟩ := peer
        obtain rfl : queuePrefix = peerPrefix := hbus
        obtain rfl : consumerName = peerName := heventName.trans hpeername.symm
        rfl
      show (s.queued.eraseIdx index).count _ = 1 ∧ State.handedTo (s.handleMessage ..) _ _ _ = [] ∨
        (s.queued.eraseIdx index).count _ = 0 ∧
          _ = some (State.handedTo (s.handleMessage ..) _ _ _)
      rw [hcount, hhanded]
      exact hold

/-! ## Runs -/

variable {Names : JsString → Prop}

theorem inv_step {action : Action} (hNames : ∀ name, Names name → Disciplined deployment name)
    (hinv : Inv deployment s ∧ ∀ name ∈ s.published, Names name)
    (hpublishes : Publishes Names s action) (hstep : step deployment s action = some t) :
    Inv deployment t ∧ ∀ name ∈ t.published, Names name := by
  cases action with
  | publish eventName =>
      cases hstep
      refine ⟨inv_publish hinv.1 eventName, fun name hname => ?_⟩
      cases List.mem_append.mp hname with
      | inl hold => exact hinv.2 name hold
      | inr hnew =>
          rw [List.mem_singleton.mp hnew]
          exact hpublishes
  | deliver index consumer =>
      obtain ⟨event, hget, hconsumer, rfl⟩ := deliver_eq hstep
      exact ⟨inv_deliver hinv.1 (fun name hname => hNames name (hinv.2 name hname)) hget hconsumer,
        hinv.2⟩

theorem step_deliver {index event : Nat}
    (hget : s.queued[index]? = some (consumer.queueName, event))
    (hconsumer : consumer ∈ deployment.consumers) :
    step deployment s (.deliver index consumer) = some
      { s.handleMessage deployment consumer event with queued := s.queued.eraseIdx index } := by
  rw [step, hget]
  exact if_pos (((setUp deployment).consumers _).mpr ⟨consumer, hconsumer, rfl⟩)

/-- A consumer of a queue that gets an event may be given it. -/
theorem exists_handed (hconsumer : consumer ∈ deployment.consumers)
    (hroute : consumer.queueName ∈ deployment.route eventName) (hNames : Names eventName) :
    ∃ s : State H, Machine.Run (step deployment) (Publishes Names) {} s ∧
      ∃ invocation ∈ s.handed, invocation.eventName = consumer.eventName ∧
        s.published[invocation.event]? = some eventName := by
  obtain ⟨index, hindex⟩ := List.mem_iff_getElem?.mp hroute
  have hget : (State.publish deployment ({} : State H) eventName).queued[index]? =
      some (consumer.queueName, 0) := by
    show ([] ++ (deployment.route eventName).map fun queueName => (queueName, 0))[index]? = _
    rw [List.nil_append, List.getElem?_map, hindex]
    rfl
  have hpublish : Machine.Run (step deployment) (Publishes Names) ({} : State H)
      (State.publish deployment {} eventName) :=
    .tail (a := .publish eventName) .refl hNames rfl
  refine ⟨_, hpublish.tail (a := .deliver index consumer) trivial (step_deliver hget hconsumer), ?_⟩
  obtain ⟨handlers, hhandlers⟩ := mem_consumers.mp hconsumer
  obtain ⟨handler, rest, rfl⟩ := List.exists_cons_of_ne_nil (registered_ne_nil hhandlers)
  refine ⟨⟨consumer.queuePrefix, consumer.eventName, handler, 0⟩, ?_, rfl, rfl⟩
  show _ ∈ [] ++ _
  rw [hhandlers]
  exact List.mem_cons_self ..

/-- In all runs in which events with some names are published they are delivered as they
should be, if and only if the queues that have bindings for these names keep to them. -/
theorem delivered_iff (deployment : Deployment H) (Names : JsString → Prop) :
    (∀ s, Machine.Run (step deployment) (Publishes Names) {} s → s.Delivered deployment) ↔
      ∀ eventName, Names eventName → Disciplined deployment eventName := by
  constructor
  · intro hall eventName hNames bound hbound hroutes consumer hconsumer hqueue
    have hroute : consumer.queueName ∈ deployment.route eventName :=
      mem_route.mpr ⟨bound, hbound, hqueue.symm, hroutes⟩
    obtain ⟨s, hrun, invocation, hmem, hname, hpublished⟩ :=
      exists_handed hconsumer hroute hNames
    have hnamed := (hall s hrun).named invocation hmem
    rw [hpublished] at hnamed
    exact hname.symm.trans (Option.some.inj hnamed).symm
  · intro hNames s hrun
    have hinv : Inv deployment s ∧ ∀ name ∈ s.published, Names name :=
      hrun.inv ⟨inv_init, fun name hname => by cases hname⟩
        fun _ _ _ hinv hpublishes hstep => inv_step hNames hinv hpublishes hstep
    exact delivered_of_inv hinv.1

/-! ## What the condition says of the two exchange types -/

theorem disciplined_fanout (h : deployment.exchangeType = .fanout) :
    Disciplined deployment eventName ↔
      ∀ consumer ∈ deployment.consumers, consumer.eventName = eventName := by
  unfold Disciplined
  rw [h]
  constructor
  · exact fun hall consumer hconsumer => hall consumer hconsumer trivial consumer hconsumer rfl
  · exact fun hall bound hbound _ consumer hconsumer _ => hall consumer hconsumer

/-- No other binding key matches the name, and no other consumer has a queue of it. -/
theorem disciplined_iff :
    Disciplined deployment eventName ↔
      (∀ bound ∈ deployment.consumers,
        deployment.exchangeType.Routes bound.eventName eventName → bound.eventName = eventName) ∧
      ∀ own ∈ deployment.consumers, own.eventName = eventName →
        ∀ consumer ∈ deployment.consumers, consumer.queueName = own.queueName →
          consumer = own := by
  constructor
  · intro hdisciplined
    refine ⟨fun bound hbound hroutes => hdisciplined bound hbound hroutes bound hbound rfl,
      fun own hown hname consumer hconsumer hqueue => ?_⟩
    have hroutes := routes_self deployment.exchangeType own.eventName
    rw [hname] at hroutes
    exact queueName_inj ((hdisciplined own hown (hname ▸ hroutes) consumer hconsumer
      hqueue).trans hname.symm) hqueue
  · rintro ⟨hbindings, hqueues⟩ bound hbound hroutes consumer hconsumer hqueue
    have hname := hbindings bound hbound hroutes
    rw [hqueues bound hbound hname consumer hconsumer hqueue]
    exact hname

namespace Sample

/-- One bus, with a handler for each of two names. -/
def orders : Deployment Unit where
  exchangeType := .fanout
  buses := InsertionMap.set ∅ (Json.ascii "orders")
    [(Json.ascii "OrderPlaced", ()), (Json.ascii "OrderShipped", ())]

def placed : Consumer := ⟨Json.ascii "orders", Json.ascii "OrderPlaced"⟩

/-- With a fanout exchange the handlers of one name are called with events of the other. -/
theorem delivered_fanout :
    ¬ ∀ (deployment : Deployment Unit) (s : State Unit),
      Machine.Reaches (step deployment) {} s → s.Delivered deployment := by
  intro hall
  have hconsumer : placed ∈ orders.consumers := by decide +kernel
  have hroute : placed.queueName ∈ orders.route (Json.ascii "OrderShipped") := by decide +kernel
  have hhanded : ∃ s : State Unit, Machine.Run (step orders) (Publishes fun _ => True) {} s ∧
      ∃ invocation ∈ s.handed, invocation.eventName = placed.eventName ∧
        s.published[invocation.event]? = some (Json.ascii "OrderShipped") :=
    exists_handed hconsumer hroute trivial
  obtain ⟨s, hrun, invocation, hmem, hname, hpublished⟩ := hhanded
  have hnamed := (hall orders s hrun.reaches).named invocation hmem
  rw [hpublished, hname] at hnamed
  exact absurd hnamed (by decide +kernel)

end Sample

end Noddde.Brokers.RabbitMqEventBus.Topology
