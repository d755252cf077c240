import Noddde.Brokers.KafkaConnection
/-!
# The subscriptions of the Kafka bus

The set of the bus holds what its consumer object has subscribed to, and what earlier
consumer objects had.
-/

namespace Noddde.Brokers.KafkaEventBus

namespace Bus

variable {H : Type} {config : Config} {warmupHandler : H} {bus next : Bus H}

/-- The topic of every handler is in the set. -/
def Covers (config : Config) (bus : Bus H) : Prop :=
  ∀ name ∈ bus.handlers.keys, config.topicName name ∈ bus.subscribedTopics

theorem topicName_injective (config : Config) : Function.Injective config.topicName := by
  intro a b h
  exact (String.append_right_inj _).mp h

/-- What holds at all times. -/
structure Base (config : Config) (bus : Bus H) : Prop where
  named : ∀ topic ∈ bus.subscribedTopics,
    ∃ name ∈ bus.handlers.keys, config.topicName name = topic
  tracked : ∀ consumer, bus.consumer = some consumer → ∀ topic,
    topic ∈ bus.subscribedTopics ↔
      topic ∈ consumer.inherited ∨ topic ∈ consumer.subscribed
  fresh : ∀ consumer, bus.consumer = some consumer →
    ∀ topic ∈ consumer.inherited, topic ∉ consumer.subscribed
  resolved : bus.resolved = true → bus.connected = true

/-- The consumer object runs, and the topic of every handler is in the set. -/
structure Live (config : Config) (bus : Bus H) : Prop where
  running : ∃ consumer, bus.consumer = some consumer ∧ consumer.running = true
  covers : bus.Covers config

/-- What holds while an attempt awaits. -/
def PhaseInv (config : Config) (bus : Bus H) : Phase → Prop
  | .subscribe index topic => bus.connected = false ∧ bus.consumer.isSome ∧
      topic ∉ bus.subscribedTopics ∧
      (∃ name, bus.handlers.keys[index]? = some name ∧ config.topicName name = topic) ∧
      ∀ j < index, ∀ name, bus.handlers.keys[j]? = some name →
        config.topicName name ∈ bus.subscribedTopics
  | .run => bus.connected = false ∧ bus.consumer.isSome ∧ bus.Covers config
  | .fetchStart => bus.connected = false ∧ bus.Live config
  | .warmup => bus.connected = true
  | _ => bus.connected = false ∧ bus.consumer.isSome

structure Inv (config : Config) (bus : Bus H) : Prop where
  base : bus.Base config
  phase : ∀ phase, bus.connecting = some phase → bus.PhaseInv config phase
  live : bus.connected = true → bus.Live config

theorem inv_init : Inv config ({} : Bus H) := by
  refine ⟨⟨?_, ?_, ?_, ?_⟩, ?_, ?_⟩
  · intro topic hmem
    cases hmem
  · intro consumer h
    cases h
  · intro consumer h
    cases h
  · intro h
    cases h
  · intro phase h
    cases h
  · intro h
    cases h

/-- What an attempt awaits next is not read by the rest. -/
theorem inv_await {phase : Phase} (hbase : bus.Base config)
    (hlive : bus.connected = true → bus.Live config) (hphase : bus.PhaseInv config phase) :
    (bus.await phase).Inv config := by
  refine ⟨⟨hbase.named, hbase.tracked, hbase.fresh, hbase.resolved⟩, fun other h => ?_,
    fun h => ⟨(hlive h).running, (hlive h).covers⟩⟩
  cases h
  cases phase with
  | fetchStart => exact ⟨hphase.1, hphase.2.running, hphase.2.covers⟩
  | _ => exact hphase

theorem inv_reject (hbase : bus.Base config)
    (hlive : bus.connected = true → bus.Live config) : bus.reject.Inv config := by
  refine ⟨⟨hbase.named, hbase.tracked, hbase.fresh, hbase.resolved⟩, fun other h => ?_,
    fun h => ⟨(hlive h).running, (hlive h).covers⟩⟩
  cases h

theorem inv_resolve (hbase : bus.Base config) (hconnected : bus.connected = true)
    (hlive : bus.Live config) : bus.resolve.Inv config := by
  refine ⟨⟨hbase.named, hbase.tracked, hbase.fresh, fun _ => hconnected⟩, fun other h => ?_,
    fun _ => ⟨hlive.running, hlive.covers⟩⟩
  cases h

/-! ## The loop over the handlers -/

theorem nextTopic_some {names : List String} {start index : Nat} {topic : String}
    (h : bus.nextTopic config names start = some (index, topic)) :
    start ≤ index ∧ topic ∉ bus.subscribedTopics ∧
      (∃ name, names[index - start]? = some name ∧ config.topicName name = topic) ∧
      ∀ j < index - start, ∀ name, names[j]? = some name →
        config.topicName name ∈ bus.subscribedTopics := by
  induction names generalizing start with
  | nil => cases h
  | cons first rest ih =>
      rw [nextTopic] at h
      split_ifs at h with hmem
      · obtain ⟨hle, hnot, ⟨name, hname, htopic⟩, hbefore⟩ := ih h
        have hsub : index - start = (index - (start + 1)) + 1 := by omega
        refine ⟨by omega, hnot, ⟨name, ?_, htopic⟩, fun j hj other hother => ?_⟩
        · rw [hsub, List.getElem?_cons_succ]
          exact hname
        · cases j with
          | zero =>
              rw [List.getElem?_cons_zero] at hother
              cases hother
              exact hmem
          | succ j =>
              rw [List.getElem?_cons_succ] at hother
              exact hbefore j (by omega) other hother
      · cases h
        refine ⟨Nat.le_refl _, hmem, ⟨first, by simp, rfl⟩, fun j hj => ?_⟩
        omega

theorem nextTopic_none {names : List String} {start : Nat}
    (h : bus.nextTopic config names start = none) :
    ∀ name ∈ names, config.topicName name ∈ bus.subscribedTopics := by
  induction names generalizing start with
  | nil => simp
  | cons first rest ih =>
      rw [nextTopic] at h
      split_ifs at h with hmem
      exact List.forall_mem_cons.mpr ⟨hmem, ih h⟩

theorem inv_subscribeFrom {index : Nat} (hbase : bus.Base config)
    (hconnected : bus.connected = false) (hconsumer : bus.consumer.isSome)
    (hbefore : ∀ j < index, ∀ name, bus.handlers.keys[j]? = some name →
      config.topicName name ∈ bus.subscribedTopics) :
    (bus.subscribeFrom config index).Inv config := by
  have hlive : bus.connected = true → bus.Live config := by
    intro h
    rw [hconnected] at h
    cases h
  unfold subscribeFrom
  cases hnext : bus.nextTopic config (bus.handlers.keys.drop index) index with
  | some found =>
      obtain ⟨found, topic⟩ := found
      obtain ⟨hle, hnot, ⟨name, hname, htopic⟩, hskipped⟩ := nextTopic_some hnext
      rw [List.getElem?_drop] at hname
      have hindex : index + (found - index) = found := by omega
      rw [hindex] at hname
      refine inv_await hbase hlive
        ⟨hconnected, hconsumer, hnot, ⟨name, hname, htopic⟩, fun j hj other hother => ?_⟩
      by_cases hj' : j < index
      · exact hbefore j hj' other hother
      · apply hskipped (j - index) (by omega) other
        rw [List.getElem?_drop]
        have hsum : index + (j - index) = j := by omega
        rw [hsum]
        exact hother
  | none =>
      refine inv_await hbase hlive ⟨hconnected, hconsumer, fun name hname => ?_⟩
      obtain ⟨j, hj⟩ := List.mem_iff_getElem?.mp hname
      by_cases hj' : j < index
      · exact hbefore j hj' name hj
      · apply nextTopic_none hnext
        apply List.mem_of_getElem? (i := j - index)
        rw [List.getElem?_drop]
        have hsum : index + (j - index) = j := by omega
        rw [hsum]
        exact hj

theorem inv_provisionTopics (hbase : bus.Base config) (hconnected : bus.connected = false)
    (hconsumer : bus.consumer.isSome) : (bus.provisionTopics config).Inv config := by
  have hlive : bus.connected = true → bus.Live config := by
    intro h
    rw [hconnected] at h
    cases h
  unfold provisionTopics
  simp only
  split_ifs
  · exact inv_subscribeFrom hbase hconnected hconsumer fun j hj => by omega
  · exact inv_await hbase hlive ⟨hconnected, hconsumer⟩

theorem base_registerWarmupHandler (hbase : bus.Base config) :
    (bus.registerWarmupHandler config warmupHandler).Base config := by
  refine ⟨fun topic hmem => ?_, hbase.tracked, hbase.fresh, hbase.resolved⟩
  obtain ⟨name, hname, htopic⟩ := hbase.named topic hmem
  exact ⟨name, InsertionMap.mem_keys_set_iff.mpr (.inl hname), htopic⟩

/-- An admin call is followed by another one, by what comes after it, or by a failure. -/
theorem inv_settleAdmin {phase : AdminCall → Phase} {done : Bus H} {ok : Bool}
    (call : AdminCall) (hbase : bus.Base config)
    (hlive : bus.connected = true → bus.Live config)
    (hphase : ∀ call, bus.PhaseInv config (phase call)) (hdone : done.Inv config) :
    (bus.settleAdmin phase done ok call).Inv config := by
  have hreject := inv_reject hbase hlive
  cases call with
  | connect =>
      cases ok with
      | true => exact inv_await hbase hlive (hphase _)
      | false => exact hreject
  | createTopics => exact inv_await hbase hlive (hphase _)
  | disconnect created =>
      cases ok with
      | true =>
          cases created with
          | true => exact hdone
          | false => exact hreject
      | false => exact hreject

theorem inv_finishRun (hbase : bus.Base config) (hlive : bus.Live config) :
    (bus.finishRun config).Inv config := by
  have hbase' : ({ bus with connected := true } : Bus H).Base config :=
    ⟨hbase.named, hbase.tracked, hbase.fresh, fun _ => rfl⟩
  have hlive' : ({ bus with connected := true } : Bus H).Live config :=
    ⟨hlive.running, hlive.covers⟩
  unfold finishRun
  simp only
  split_ifs
  · exact inv_await hbase' (fun _ => hlive') rfl
  · exact inv_resolve hbase' rfl hlive'

/-! ## The steps -/

theorem inv_subscribed {index : Nat} {topic : String} (hinv : bus.Inv config)
    (hphase : bus.PhaseInv config (.subscribe index topic)) :
    (bus.settle config warmupHandler true (.subscribe index topic)).Inv config := by
  obtain ⟨hconnected, hconsumer, hnot, ⟨name, hname, htopic⟩, hbefore⟩ := hphase
  have hmap {consumer : ConsumerObject} (h : (bus.consumer.map fun consumer =>
      { consumer with subscribed := topic :: consumer.subscribed }) = some consumer) :
      ∃ old, bus.consumer = some old ∧
        consumer = { old with subscribed := topic :: old.subscribed } := by
    obtain ⟨old, hold, rfl⟩ := Option.map_eq_some_iff.mp h
    exact ⟨old, hold, rfl⟩
  apply inv_subscribeFrom
  · refine ⟨fun other hmem => ?_, fun consumer h other => ?_, fun consumer h other hmem => ?_,
      hinv.base.resolved⟩
    · cases List.mem_cons.mp hmem with
      | inl heq => exact ⟨name, List.mem_of_getElem? hname, htopic.trans heq.symm⟩
      | inr hold => exact hinv.base.named other hold
    · obtain ⟨old, hold, rfl⟩ := hmap h
      have htracked := hinv.base.tracked old hold other
      show other ∈ topic :: bus.subscribedTopics ↔
        other ∈ old.inherited ∨ other ∈ topic :: old.subscribed
      simp only [List.mem_cons, htracked]
      exact or_left_comm
    · obtain ⟨old, hold, rfl⟩ := hmap h
      have hfresh := hinv.base.fresh old hold other hmem
      have htracked := (hinv.base.tracked old hold other).mpr (.inl hmem)
      intro hmem'
      cases List.mem_cons.mp hmem' with
      | inl heq => exact hnot (heq ▸ htracked)
      | inr hsub => exact hfresh hsub
  · exact hconnected
  · simpa [updateConsumer] using hconsumer
  · intro j hj other hother
    by_cases heq : j = index
    · subst heq
      have hsame : other = name := Option.some.inj (hother.symm.trans hname)
      rw [hsame, htopic]
      exact List.mem_cons_self
    · exact List.mem_cons_of_mem _ (hbefore j (by omega) other hother)

theorem inv_run (hinv : bus.Inv config) (hphase : bus.PhaseInv config .run) :
    (bus.settle config warmupHandler true .run).Inv config := by
  obtain ⟨hconnected, hconsumer, hcovers⟩ := hphase
  obtain ⟨consumer, hconsumer⟩ := Option.isSome_iff_exists.mp hconsumer
  have hupdate : (bus.updateConsumer fun consumer => { consumer with running := true }) =
      { bus with consumer := some { consumer with running := true } } := by
    unfold updateConsumer
    rw [hconsumer]
    rfl
  have hbase : ({ bus with consumer := some { consumer with running := true } } :
      Bus H).Base config := by
    refine ⟨hinv.base.named, fun other h topic => ?_, fun other h topic hmem => ?_,
      hinv.base.resolved⟩
    · cases h
      exact hinv.base.tracked consumer hconsumer topic
    · cases h
      exact hinv.base.fresh consumer hconsumer topic hmem
  have hlive : ({ bus with consumer := some { consumer with running := true } } :
      Bus H).Live config := ⟨⟨_, rfl, rfl⟩, hcovers⟩
  show Inv config (if (bus.updateConsumer _).subscribedTopics = [] then _ else _)
  rw [hupdate]
  split_ifs
  · exact inv_finishRun hbase hlive
  · exact inv_await hbase (fun _ => hlive) ⟨hconnected, hlive⟩

theorem inv_settle {ok : Bool} {phase : Phase} (hinv : bus.Inv config)
    (hphase : bus.PhaseInv config phase) :
    (bus.settle config warmupHandler ok phase).Inv config := by
  have hreject := inv_reject hinv.base hinv.live
  cases phase with
  | connectProducer =>
      cases ok with
      | true => exact inv_await hinv.base hinv.live hphase
      | false => exact hreject
  | connectConsumer =>
      cases ok with
      | true =>
          show Inv config (if config.warmupOnConnect then _ else _)
          split_ifs
          · exact inv_await hinv.base hinv.live hphase
          · exact inv_provisionTopics hinv.base hphase.1 hphase.2
      | false => exact hreject
  | provisionWarmupTopic call =>
      exact inv_settleAdmin call hinv.base hinv.live (fun _ => hphase)
        (inv_provisionTopics (base_registerWarmupHandler hinv.base) hphase.1 hphase.2)
  | provisionTopics pending call =>
      refine inv_settleAdmin call hinv.base hinv.live (fun _ => hphase)
        (inv_subscribeFrom ⟨hinv.base.named, hinv.base.tracked, hinv.base.fresh,
          hinv.base.resolved⟩ hphase.1 hphase.2 fun j hj => ?_)
      omega
  | subscribe index topic =>
      cases ok with
      | true => exact inv_subscribed hinv hphase
      | false => exact hreject
  | run =>
      cases ok with
      | true => exact inv_run hinv hphase
      | false => exact hreject
  | fetchStart => exact inv_finishRun hinv.base hphase.2
  | warmup =>
      cases ok with
      | true => exact inv_resolve hinv.base hphase (hinv.live hphase)
      | false => exact hreject

theorem inv_connect (hinv : bus.Inv config) : bus.connect.Inv config := by
  unfold connect
  split_ifs with hconnected
  · have hlive := hinv.live hconnected
    exact ⟨⟨hinv.base.named, hinv.base.tracked, hinv.base.fresh, fun _ => hconnected⟩,
      fun phase h => by
        have hphase := hinv.phase phase h
        cases phase with
        | fetchStart => exact ⟨hphase.1, hphase.2.running, hphase.2.covers⟩
        | _ => exact hphase,
      fun _ => ⟨hlive.running, hlive.covers⟩⟩
  · cases hconnecting : bus.connecting with
    | some phase => exact hinv
    | none =>
        have hfalse : bus.connected = false := Bool.eq_false_iff.mpr hconnected
        apply inv_await
        · refine ⟨hinv.base.named, fun consumer h topic => ?_, fun consumer h topic _ => ?_,
            hinv.base.resolved⟩
          · cases h
            simp
          · cases h
            simp
        · intro h
          exact absurd h hconnected
        · exact ⟨hfalse, rfl⟩

/-- `on()` while an attempt is under way, or after it, adds no event name. -/
theorem keys_on {eventName : String} {handler : H} (hbase : bus.Base config)
    (hguard : (bus.connected || bus.connecting.isSome) = true) :
    (bus.on config eventName handler).2.handlers.keys = bus.handlers.keys := by
  unfold on
  rw [hguard, Bool.true_and]
  split_ifs with hnot
  · rfl
  · have hmem : config.topicName eventName ∈ bus.subscribedTopics := by simpa using hnot
    obtain ⟨name, hname, htopic⟩ := hbase.named _ hmem
    rw [topicName_injective config htopic] at hname
    exact InsertionMap.keys_set_of_mem hname _

theorem on_frame (config : Config) (bus : Bus H) (eventName : String) (handler : H) :
    (bus.on config eventName handler).2 =
      { bus with handlers := (bus.on config eventName handler).2.handlers } := by
  unfold on
  split_ifs <;> rfl

theorem inv_on {eventName : String} {handler : H} (hinv : bus.Inv config) :
    (bus.on config eventName handler).2.Inv config := by
  have hmono : ∀ name ∈ bus.handlers.keys,
      name ∈ (bus.on config eventName handler).2.handlers.keys := by
    intro name hmem
    unfold on
    split_ifs
    · exact hmem
    · exact InsertionMap.mem_keys_set_iff.mpr (.inl hmem)
  have hkeys : (bus.connected || bus.connecting.isSome) = true →
      (bus.on config eventName handler).2.handlers.keys = bus.handlers.keys :=
    keys_on hinv.base
  rw [on_frame]
  generalize (bus.on config eventName handler).2.handlers = handlers at hmono hkeys
  refine ⟨⟨fun topic hmem => ?_, hinv.base.tracked, hinv.base.fresh, hinv.base.resolved⟩,
    fun phase h => ?_, fun h => ?_⟩
  · obtain ⟨name, hname, htopic⟩ := hinv.base.named topic hmem
    exact ⟨name, hmono name hname, htopic⟩
  · have hconnecting : bus.connecting = some phase := h
    have hsame : handlers.keys = bus.handlers.keys := hkeys (by rw [hconnecting]; simp)
    have hphase := hinv.phase phase h
    cases phase with
    | subscribe index topic =>
        unfold PhaseInv at hphase ⊢
        rw [hsame]
        exact hphase
    | run =>
        refine ⟨hphase.1, hphase.2.1, fun name hname => ?_⟩
        rw [hsame] at hname
        exact hphase.2.2 name hname
    | fetchStart =>
        refine ⟨hphase.1, hphase.2.running, fun name hname => ?_⟩
        rw [hsame] at hname
        exact hphase.2.covers name hname
    | _ => exact hphase
  · have hconnected : bus.connected = true := h
    have hsame : handlers.keys = bus.handlers.keys := hkeys (by rw [hconnected]; rfl)
    refine ⟨(hinv.live h).running, fun name hname => ?_⟩
    rw [hsame] at hname
    exact (hinv.live h).covers name hname

theorem inv_step {action : Action H} (hinv : bus.Inv config)
    (hstep : bus.step config warmupHandler action = some next) : next.Inv config := by
  cases action with
  | connect =>
      cases hstep
      exact inv_connect hinv
  | on eventName handler =>
      cases hstep
      exact inv_on hinv
  | settle ok =>
      obtain ⟨phase, hphase, rfl⟩ := Option.map_eq_some_iff.mp hstep
      exact inv_settle hinv (hinv.phase phase hphase)

theorem inv_of_reached (h : Reached config warmupHandler bus) : bus.Inv config :=
  h.inv inv_init fun _ _ _ hinv _ hstep => inv_step hinv hstep

/-! ## The subscriptions -/

/-- The topic of every event name with a handler is subscribed on the consumer that runs, and
`on()` for another topic throws and registers nothing. -/
structure Subscribed (config : Config) (bus : Bus H) : Prop where
  topics : ∃ consumer, bus.consumer = some consumer ∧ consumer.running = true ∧
    ∀ name ∈ bus.handlers.keys, config.topicName name ∈ consumer.subscribed
  guarded : ∀ consumer, bus.consumer = some consumer → ∀ name handler,
    config.topicName name ∉ consumer.subscribed →
      (bus.on config name handler).1 = false ∧
        (bus.on config name handler).2.handlers = bus.handlers

/-- Once `connect()` has resolved, all is subscribed if and only if the attempt that made the
consumer began with an empty set. -/
theorem subscribed_iff (config : Config) (warmupHandler : H)
    (h : Reached config warmupHandler bus) (hresolved : bus.resolved = true) :
    bus.Subscribed config ↔
      ∀ consumer, bus.consumer = some consumer → consumer.inherited = [] := by
  have hinv := inv_of_reached h
  have hconnected := hinv.base.resolved hresolved
  obtain ⟨⟨consumer, hconsumer, hrunning⟩, hcovers⟩ := hinv.live hconnected
  have htracked := hinv.base.tracked consumer hconsumer
  constructor
  · intro hsubscribed other hother
    have hsame : other = consumer := Option.some.inj (hother.symm.trans hconsumer)
    subst hsame
    obtain ⟨running, hrunning, -, htopics⟩ := hsubscribed.topics
    have hsame : running = other := Option.some.inj (hrunning.symm.trans hother)
    subst hsame
    apply List.eq_nil_iff_forall_not_mem.mpr
    intro topic hmem
    obtain ⟨name, hname, rfl⟩ := hinv.base.named topic ((htracked topic).mpr (.inl hmem))
    exact hinv.base.fresh running hother _ hmem (htopics name hname)
  · intro hinherited
    have hnil := hinherited consumer hconsumer
    have hsame (topic : String) :
        topic ∈ bus.subscribedTopics ↔ topic ∈ consumer.subscribed := by
      rw [htracked topic, hnil]
      simp
    refine ⟨⟨consumer, hconsumer, hrunning, fun name hname => ?_⟩,
      fun other hother name handler hnot => ?_⟩
    · exact (hsame _).mp (hcovers name hname)
    · have heq : other = consumer := Option.some.inj (hother.symm.trans hconsumer)
      subst heq
      have hnot' : config.topicName name ∉ bus.subscribedTopics :=
        fun hmem => hnot ((hsame _).mp hmem)
      simp [on, hconnected, hnot']

namespace Sample

def plain : Config := { clientId := "shop", topicPrefix := none, warmupOnConnect := false }

/-- The calls up to the loop over the handlers. -/
def untilSubscribe : List (Action Unit) := [.connect, .settle true, .settle true]

def provision : List (Action Unit) := [.settle true, .settle true, .settle true]

/-- Both topics are subscribed by the first attempt. -/
theorem subscribed_iff_connected :
    ∃ bus : Bus Unit, Reached plain () bus ∧ bus.resolved = true ∧ bus.Subscribed plain := by
  have hplay : (Machine.play (step plain ())
      ([.on "OrderPlaced" (), .on "OrderShipped" ()] ++ untilSubscribe ++ provision ++
        [.settle true, .settle true, .settle true, .settle true]) {}).map
        (fun bus => (bus.resolved, bus.consumer.map ConsumerObject.inherited)) =
      some (true, some []) := by decide +kernel
  obtain ⟨bus, hbus, hstate⟩ := Option.map_eq_some_iff.mp hplay
  obtain ⟨hresolved, hinherited⟩ := Prod.mk.inj hstate
  have hrun := Machine.run_of_play (C := fun _ _ => True) (fun _ _ _ => trivial) hbus
  have hiff := subscribed_iff plain () hrun hresolved
  refine ⟨bus, hrun, hresolved, hiff.mpr fun consumer hconsumer => ?_⟩
  rw [hconsumer] at hinherited
  exact Option.some.inj hinherited

/-- The second subscribe of the first attempt fails.  The second attempt leaves out the
topic that the first one has put into the set. -/
theorem subscribed_retry :
    ¬ ∀ (config : Config) (bus : Bus Unit), Reached config () bus → bus.resolved = true →
      bus.Subscribed config := by
  intro hall
  have hplay : (Machine.play (step plain ())
      ([.on "OrderPlaced" (), .on "OrderShipped" ()] ++ untilSubscribe ++ provision ++
        [.settle true, .settle false] ++ untilSubscribe ++
        [.settle true, .settle true, .settle true]) {}).map
        (fun bus => (bus.resolved, bus.handlers.keys,
          bus.consumer.map ConsumerObject.subscribed)) =
      some (true, ["OrderPlaced", "OrderShipped"], some ["OrderShipped"]) := by decide +kernel
  obtain ⟨bus, hbus, hstate⟩ := Option.map_eq_some_iff.mp hplay
  obtain ⟨hresolved, hstate⟩ := Prod.mk.inj hstate
  obtain ⟨hkeys, hsubscribed⟩ := Prod.mk.inj hstate
  have hrun := Machine.run_of_play (C := fun _ _ => True) (fun _ _ _ => trivial) hbus
  obtain ⟨consumer, hconsumer, -, htopics⟩ := (hall plain bus hrun hresolved).topics
  rw [hconsumer] at hsubscribed
  have hlist : consumer.subscribed = ["OrderShipped"] := Option.some.inj hsubscribed
  have hplaced := htopics "OrderPlaced" (by rw [hkeys]; exact List.mem_cons_self)
  rw [hlist] at hplaced
  exact absurd hplaced (by decide)

end Sample

end Bus

end Noddde.Brokers.KafkaEventBus
