import Mathlib.Data.List.Perm.Basic
import Noddde.Brokers.NatsConnection
/-!
# The subscriptions of the NATS bus

In an orderly run one call of `connect()` at a time creates subscriptions, in the order of
the handler map, and `on()` creates one only when none does.
-/

namespace Noddde.Brokers.NatsEventBus

namespace Bus

variable {H : Type} {config : Config} {bus next : Bus H} {js call index : Nat}
  {eventName : JsString} {handler : H}

/-- There is one subscription on the connection, live or about to be. -/
def Once (bus : Bus H) (js : Nat) (eventName : JsString) : Prop :=
  (bus.subscriptions ++ bus.creating).count (eventName, js) = 1

/-- Subscriptions are made on the one connection, for names in the set, and these have
handlers. -/
structure Tidy (bus : Bus H) (js : Nat) : Prop where
  handled : ∀ name ∈ bus.subscribedEventNames, name ∈ bus.handlers.keys
  marked : ∀ subscription ∈ bus.subscriptions ++ bus.creating,
    subscription.2 = js ∧ subscription.1 ∈ bus.subscribedEventNames

/-- The keys before the index are in the set, and each of them has its subscription. -/
structure Upto (bus : Bus H) (js index : Nat) : Prop where
  idle : bus.creating = []
  marked : ∀ name, name ∈ bus.subscribedEventNames ↔ name ∈ bus.handlers.keys.take index
  once : ∀ name ∈ bus.handlers.keys.take index, bus.Once js name

/-- While a key is subscribed, it is in the set already. -/
structure Subscribing (bus : Bus H) (js index : Nat) (eventName : JsString) : Prop where
  key : bus.handlers.keys[index]? = some eventName
  idle : bus.creating = []
  marked : ∀ name, name ∈ bus.subscribedEventNames ↔ name ∈ bus.handlers.keys.take (index + 1)
  once : ∀ name ∈ bus.handlers.keys.take index, bus.Once js name
  fresh : (eventName, js) ∉ bus.subscriptions

def Stage (bus : Bus H) (js : Nat) : List Phase → Prop
  | [] => ∀ name ∈ bus.handlers.keys, bus.Once js name ∨ name ∈ bus.thrown
  | [.jetstreamManager] | [.streamInfo] | [.streamAdd] => bus.subscribedEventNames = []
  | [.subscribe index eventName on] => on = js ∧ bus.Subscribing js index eventName
  | _ => False

structure Fresh (bus : Bus H) : Prop where
  unmarked : bus.subscribedEventNames = []
  none : bus.subscriptions ++ bus.creating = []
  calls : bus.connecting = [] ∨ bus.connecting = [.connect]
  resolved : bus.resolved = false

structure Inv (bus : Bus H) : Prop where
  fresh : bus.js = none → bus.Fresh
  opened : ∀ js, bus.js = some js → bus.Tidy js ∧ bus.Stage js bus.connecting

theorem Tidy.congr {other : Bus H} (h : bus.Tidy js)
    (hkeys : other.handlers.keys = bus.handlers.keys)
    (hmarked : other.subscribedEventNames = bus.subscribedEventNames)
    (hall : other.subscriptions ++ other.creating = bus.subscriptions ++ bus.creating) :
    other.Tidy js := by
  refine ⟨fun name hname => ?_, fun subscription hmem => ?_⟩
  · rw [hmarked] at hname
    rw [hkeys]
    exact h.handled name hname
  · rw [hall] at hmem
    rw [hmarked]
    exact h.marked subscription hmem

theorem not_stage_two {phase second : Phase} {rest : List Phase} :
    ¬ bus.Stage js (phase :: second :: rest) := by
  cases phase <;> exact id

theorem Stage.congr {other : Bus H} {calls : List Phase} (h : bus.Stage js calls)
    (hkeys : other.handlers.keys = bus.handlers.keys)
    (hmarked : other.subscribedEventNames = bus.subscribedEventNames)
    (hlive : other.subscriptions = bus.subscriptions)
    (hcreating : other.creating = bus.creating) (hthrown : other.thrown = bus.thrown) :
    other.Stage js calls := by
  have honce (name : JsString) : other.Once js name ↔ bus.Once js name := by
    unfold Once
    rw [hlive, hcreating]
  rcases calls with - | ⟨phase, - | ⟨second, rest⟩⟩
  · intro name hname
    rw [honce, hthrown]
    exact h name (hkeys ▸ hname)
  · cases phase with
    | connect => exact h
    | subscribe index eventName on =>
        obtain ⟨heq, hsub⟩ := h
        refine ⟨heq, hkeys ▸ hsub.key, hcreating.trans hsub.idle, fun name => ?_,
          fun name hname => ?_, hlive ▸ hsub.fresh⟩
        · rw [hmarked, hkeys]
          exact hsub.marked name
        · rw [hkeys] at hname
          exact (honce name).mpr (hsub.once name hname)
    | jetstreamManager => exact hmarked.trans h
    | streamInfo => exact hmarked.trans h
    | streamAdd => exact hmarked.trans h
  · exact (not_stage_two h).elim

theorem inv_init : Inv ({} : Bus H) := by
  refine ⟨fun _ => ⟨rfl, rfl, .inl rfl, rfl⟩, fun js hjs => ?_⟩
  cases hjs

/-! ## connect() -/

theorem keys_nodup (bus : Bus H) : bus.handlers.keys.Nodup := bus.handlers.nodup

theorem take_succ_of_key (hkey : bus.handlers.keys[index]? = some eventName) :
    bus.handlers.keys.take (index + 1) = bus.handlers.keys.take index ++ [eventName] := by
  rw [List.take_add_one, hkey]
  rfl

theorem activateSubscriptions_none (hjs : bus.js = some js)
    (hkey : bus.handlers.keys[index]? = none) :
    bus.activateSubscriptions call index = bus.resolve call := by
  unfold activateSubscriptions
  rw [hjs, hkey]

theorem activateSubscriptions_some (hjs : bus.js = some js)
    (hkey : bus.handlers.keys[index]? = some eventName) :
    bus.activateSubscriptions call index =
      ({ bus with subscribedEventNames := eventName :: bus.subscribedEventNames } : Bus H).await
        call (.subscribe index eventName js) := by
  unfold activateSubscriptions
  rw [hjs, hkey]

/-- The loop goes on to the next key, or the call resolves. -/
theorem inv_activateSubscriptions {phase : Phase} (hjs : bus.js = some js)
    (hcalls : bus.connecting = [phase]) (htidy : bus.Tidy js) (hupto : bus.Upto js index) :
    (bus.activateSubscriptions 0 index).Inv := by
  cases hkey : bus.handlers.keys[index]? with
  | none =>
      rw [activateSubscriptions_none hjs hkey]
      have htake : bus.handlers.keys.take index = bus.handlers.keys :=
        List.take_of_length_le (List.getElem?_eq_none_iff.mp hkey)
      refine ⟨fun hnone => ?_, fun js' hjs' => ?_⟩
      · cases hjs.symm.trans hnone
      · obtain rfl : js = js' := Option.some.inj (hjs.symm.trans hjs')
        refine ⟨⟨htidy.handled, htidy.marked⟩, ?_⟩
        show Stage _ js (bus.connecting.eraseIdx 0)
        rw [hcalls]
        intro name hname
        refine .inl (hupto.once name ?_)
        rw [htake]
        exact hname
  | some eventName =>
      rw [activateSubscriptions_some hjs hkey]
      have htake := take_succ_of_key hkey
      have hfresh : eventName ∉ bus.subscribedEventNames := by
        intro hmem
        have hnodup := (keys_nodup bus).sublist (List.take_sublist (index + 1) _)
        rw [htake] at hnodup
        exact (List.nodup_append.mp hnodup).2.2 eventName ((hupto.marked eventName).mp hmem)
          eventName (List.mem_singleton_self _) rfl
      refine ⟨fun hnone => ?_, fun js' hjs' => ?_⟩
      · cases hjs.symm.trans hnone
      · obtain rfl : js = js' := Option.some.inj (hjs.symm.trans hjs')
        refine ⟨⟨List.forall_mem_cons.mpr ⟨List.mem_of_getElem? hkey, htidy.handled⟩,
          fun subscription hmem => ?_⟩, ?_⟩
        · obtain ⟨hon, hmarked⟩ := htidy.marked subscription hmem
          exact ⟨hon, List.mem_cons_of_mem _ hmarked⟩
        · show Stage _ js (bus.connecting.set 0 (.subscribe index eventName js))
          rw [hcalls]
          refine ⟨rfl, hkey, hupto.idle, fun name => ?_, hupto.once, fun hmem => ?_⟩
          · show name ∈ eventName :: bus.subscribedEventNames ↔
              name ∈ bus.handlers.keys.take (index + 1)
            rw [htake, List.mem_cons, List.mem_append, List.mem_singleton, hupto.marked name]
            exact or_comm
          · exact hfresh (htidy.marked _ (List.mem_append_left _ hmem)).2

/-- The keys that a call leaves when it throws. -/
theorem inv_reject {phase : Phase} (hjs : bus.js = some js) (hcalls : bus.connecting = [phase])
    (htidy : bus.Tidy js) (honce : ∀ name ∈ bus.handlers.keys.take index, bus.Once js name) :
    (bus.reject 0 index).Inv := by
  refine ⟨fun hnone => ?_, fun js' hjs' => ?_⟩
  · cases hjs.symm.trans hnone
  · obtain rfl : js = js' := Option.some.inj (hjs.symm.trans hjs')
    refine ⟨⟨htidy.handled, htidy.marked⟩, ?_⟩
    show Stage _ js (bus.connecting.eraseIdx 0)
    rw [hcalls]
    intro name hname
    have hsplit : name ∈ bus.handlers.keys.take index ++ bus.handlers.keys.drop index := by
      rw [List.take_append_drop]
      exact hname
    cases List.mem_append.mp hsplit with
    | inl htake => exact .inl (honce name htake)
    | inr hdrop => exact .inr (List.mem_append_left _ hdrop)

theorem inv_await {phase : Phase} (hjs : bus.js = some js) (hcalls : bus.connecting = [phase])
    (htidy : bus.Tidy js) {after : Phase} (hstage : bus.Stage js [after]) :
    (bus.await 0 after).Inv := by
  refine ⟨fun hnone => ?_, fun js' hjs' => ?_⟩
  · cases hjs.symm.trans hnone
  · obtain rfl : js = js' := Option.some.inj (hjs.symm.trans hjs')
    refine ⟨⟨htidy.handled, htidy.marked⟩, ?_⟩
    show Stage _ js (bus.connecting.set 0 after)
    rw [hcalls]
    exact hstage.congr rfl rfl rfl rfl rfl

/-- Before the loop nothing is marked. -/
theorem upto_zero (htidy : bus.Tidy js) (hunmarked : bus.subscribedEventNames = []) :
    bus.Upto js 0 := by
  refine ⟨?_, fun name => by rw [hunmarked, List.take_zero], fun name hname => ?_⟩
  · apply List.eq_nil_iff_forall_not_mem.mpr
    intro subscription hmem
    have hmarked := (htidy.marked subscription (List.mem_append_right _ hmem)).2
    rw [hunmarked] at hmarked
    cases hmarked
  · rw [List.take_zero] at hname
    cases hname

theorem upto_succ (hsub : bus.Subscribing js index eventName) :
    ({ bus with subscriptions := (eventName, js) :: bus.subscriptions } : Bus H).Upto js
      (index + 1) := by
  refine ⟨hsub.idle, hsub.marked, fun name hname => ?_⟩
  have htake := take_succ_of_key hsub.key
  unfold Once
  show ((eventName, js) :: (bus.subscriptions ++ bus.creating)).count (name, js) = 1
  have hzero : (bus.subscriptions ++ bus.creating).count (eventName, js) = 0 := by
    rw [List.count_eq_zero, hsub.idle, List.append_nil]
    exact hsub.fresh
  by_cases heq : name = eventName
  · rw [heq, List.count_cons_self, hzero]
  · rw [List.count_cons_of_ne fun hpair => heq (Prod.mk.inj hpair).1.symm]
    refine hsub.once name ?_
    have hmem : name ∈ bus.handlers.keys.take index ++ [eventName] := htake ▸ hname
    cases List.mem_append.mp hmem with
    | inl hbefore => exact hbefore
    | inr hlast => exact absurd (List.mem_singleton.mp hlast) heq

theorem inv_settle {phase : Phase} {ok : Bool} (hjs : bus.js = some js)
    (hcalls : bus.connecting = [phase]) (htidy : bus.Tidy js) (hstage : bus.Stage js [phase]) :
    (bus.settle config 0 ok phase).Inv := by
  have hnone : ∀ name ∈ bus.handlers.keys.take 0, bus.Once js name := by
    intro name hname
    cases hname
  cases phase with
  | connect => exact hstage.elim
  | jetstreamManager =>
      cases ok with
      | true => exact inv_await hjs hcalls htidy hstage
      | false => exact inv_reject hjs hcalls htidy hnone
  | streamInfo =>
      cases ok with
      | true => exact inv_activateSubscriptions hjs hcalls htidy (upto_zero htidy hstage)
      | false =>
          unfold settle
          rw [if_neg Bool.false_ne_true]
          cases config.buildSubjectsForStream with
          | ok subjects => exact inv_await hjs hcalls htidy hstage
          | error message => exact inv_reject hjs hcalls htidy hnone
  | streamAdd =>
      cases ok with
      | true => exact inv_activateSubscriptions hjs hcalls htidy (upto_zero htidy hstage)
      | false => exact inv_reject hjs hcalls htidy hnone
  | subscribe index eventName on =>
      obtain ⟨rfl, hsub⟩ := hstage
      cases ok with
      | true =>
          show Inv (activateSubscriptions
            { bus with subscriptions := (eventName, on) :: bus.subscriptions } 0 (index + 1))
          refine inv_activateSubscriptions hjs hcalls ⟨htidy.handled, ?_⟩ (upto_succ hsub)
          refine List.forall_mem_cons.mpr ⟨⟨rfl, (hsub.marked eventName).mpr ?_⟩, htidy.marked⟩
          rw [take_succ_of_key hsub.key]
          exact List.mem_append_right _ (List.mem_singleton_self _)
      | false => exact inv_reject hjs hcalls htidy hsub.once

/-- The first thing that is awaited, and the connection, if it resolves. -/
theorem inv_settle_connect {ok : Bool} (hjs : bus.js = none) (hfresh : bus.Fresh)
    (hcalls : bus.connecting = [.connect]) : (bus.settle config 0 ok .connect).Inv := by
  cases ok with
  | false =>
      refine ⟨fun _ => ⟨hfresh.unmarked, hfresh.none, .inl ?_, hfresh.resolved⟩,
        fun js hsome => ?_⟩
      · show bus.connecting.eraseIdx 0 = []
        rw [hcalls]
        rfl
      · cases hjs.symm.trans hsome
  | true =>
      have htidy : bus.opened.Tidy bus.connections := by
        refine ⟨fun name hname => ?_, fun subscription hmem => ?_⟩
        · have hmem : name ∈ bus.subscribedEventNames := hname
          rw [hfresh.unmarked] at hmem
          cases hmem
        · have hmem' : subscription ∈ bus.subscriptions ++ bus.creating := hmem
          rw [hfresh.none] at hmem'
          cases hmem'
      have hunmarked : bus.opened.subscribedEventNames = [] := hfresh.unmarked
      have hopened : bus.opened.js = some bus.connections := rfl
      have hcalls' : bus.opened.connecting = [.connect] := hcalls
      show Inv (if config.streamName.getD [] ≠ [] then _ else _)
      split_ifs
      · exact inv_await hopened hcalls' htidy hunmarked
      · exact inv_activateSubscriptions hopened hcalls' htidy (upto_zero htidy hunmarked)

theorem inv_connect (hinv : bus.Inv) (hcalls : bus.js = none → bus.connecting = []) :
    bus.connect.Inv := by
  unfold connect
  cases hjs : bus.js with
  | none =>
      have hfresh := hinv.fresh hjs
      rw [Option.isSome_none, if_neg Bool.false_ne_true]
      refine ⟨fun _ => ⟨hfresh.unmarked, hfresh.none, .inr ?_, hfresh.resolved⟩,
        fun js hsome => ?_⟩
      · show bus.connecting ++ [.connect] = [.connect]
        rw [hcalls hjs]
        rfl
      · cases hsome
  | some js =>
      rw [Option.isSome_some, if_pos rfl]
      refine ⟨fun hnone => ?_, fun js' hjs' => ?_⟩
      · cases hnone
      · obtain ⟨htidy, hstage⟩ := hinv.opened js' (hjs.trans hjs')
        exact ⟨htidy.congr rfl rfl rfl, hstage.congr rfl rfl rfl rfl rfl⟩

/-! ## on() -/

theorem on_none (hjs : bus.js = none) :
    bus.on eventName handler =
      { bus with
        handlers := bus.handlers.set eventName
          ((bus.handlers.get eventName).getD [] ++ [handler]) } := by
  unfold on
  rw [hjs]

theorem on_marked (hjs : bus.js = some js) (hmarked : eventName ∈ bus.subscribedEventNames) :
    bus.on eventName handler =
      { bus with
        handlers := bus.handlers.set eventName
          ((bus.handlers.get eventName).getD [] ++ [handler]) } := by
  unfold on
  rw [hjs]
  exact if_pos (List.contains_iff_mem.mpr hmarked)

theorem on_fresh (hjs : bus.js = some js) (hfresh : eventName ∉ bus.subscribedEventNames) :
    bus.on eventName handler =
      { bus with
        handlers := bus.handlers.set eventName
          ((bus.handlers.get eventName).getD [] ++ [handler])
        subscribedEventNames := eventName :: bus.subscribedEventNames
        creating := bus.creating ++ [(eventName, js)]
        thrown := bus.thrown.filter (· ≠ eventName) } := by
  unfold on
  rw [hjs]
  exact if_neg fun hmem => hfresh (List.contains_iff_mem.mp hmem)

/-- `on()` begins to subscribe an event name that is not in the set. -/
theorem stage_created {handlers : InsertionMap JsString (List H)} (htidy : bus.Tidy js)
    (hstage : bus.Stage js []) (hfresh : eventName ∉ bus.subscribedEventNames)
    (hkeys : ∀ name ∈ handlers.keys, name ∈ bus.handlers.keys ∨ name = eventName) :
    ({ bus with
        handlers
        subscribedEventNames := eventName :: bus.subscribedEventNames
        creating := bus.creating ++ [(eventName, js)]
        thrown := bus.thrown.filter (· ≠ eventName) } : Bus H).Stage js [] := by
  have hzero : (bus.subscriptions ++ bus.creating).count (eventName, js) = 0 := by
    rw [List.count_eq_zero]
    exact fun hmem => hfresh (htidy.marked _ hmem).2
  have hcount (name : JsString) :
      (bus.subscriptions ++ (bus.creating ++ [(eventName, js)])).count (name, js) =
        (bus.subscriptions ++ bus.creating).count (name, js) +
          [(eventName, js)].count (name, js) := by
    rw [← List.append_assoc, List.count_append]
  intro name hname
  by_cases heq : name = eventName
  · left
    show (bus.subscriptions ++ (bus.creating ++ [(eventName, js)])).count (name, js) = 1
    rw [hcount, heq, hzero, List.count_singleton_self]
  · have hne : (name, js) ∉ [(eventName, js)] := by
      rw [List.mem_singleton]
      exact fun hpair => heq (Prod.mk.inj hpair).1
    have hold := (hkeys name hname).resolve_right heq
    refine (hstage name hold).imp (fun honce => ?_) fun hthrown => ?_
    · show (bus.subscriptions ++ (bus.creating ++ [(eventName, js)])).count (name, js) = 1
      rw [hcount, List.count_eq_zero.mpr hne]
      exact honce
    · exact List.mem_filter.mpr ⟨hthrown, decide_eq_true heq⟩

theorem inv_on (hinv : bus.Inv) (horderly : bus.js ≠ none → bus.connecting ≠ [] →
    eventName ∈ bus.subscribedEventNames) : (bus.on eventName handler).Inv := by
  cases hjs : bus.js with
  | none =>
      have hfresh := hinv.fresh hjs
      rw [on_none hjs]
      refine ⟨fun _ => ⟨hfresh.unmarked, hfresh.none, hfresh.calls, hfresh.resolved⟩,
        fun js hsome => ?_⟩
      cases hjs.symm.trans hsome
  | some js =>
      obtain ⟨htidy, hstage⟩ := hinv.opened js hjs
      by_cases hmarked : eventName ∈ bus.subscribedEventNames
      · rw [on_marked hjs hmarked]
        refine ⟨fun hnone => ?_, fun js' hjs' => ?_⟩
        · cases hjs.symm.trans hnone
        · obtain rfl : js = js' := Option.some.inj (hjs.symm.trans hjs')
          have hkeys : (bus.handlers.set eventName
              ((bus.handlers.get eventName).getD [] ++ [handler])).keys = bus.handlers.keys :=
            InsertionMap.keys_set_of_mem (htidy.handled eventName hmarked) _
          exact ⟨htidy.congr hkeys rfl rfl, hstage.congr hkeys rfl rfl rfl rfl⟩
      · rw [on_fresh hjs hmarked]
        have hcalls : bus.connecting = [] := by
          by_contra hne
          exact hmarked (horderly (hjs ▸ Option.some_ne_none js) hne)
        rw [hcalls] at hstage
        refine ⟨fun hnone => ?_, fun js' hjs' => ?_⟩
        · cases hjs.symm.trans hnone
        · obtain rfl : js = js' := Option.some.inj (hjs.symm.trans hjs')
          refine ⟨⟨?_, fun subscription hmem => ?_⟩, ?_⟩
          · exact List.forall_mem_cons.mpr ⟨InsertionMap.mem_keys_set_iff.mpr (.inr rfl),
              fun name hname => InsertionMap.mem_keys_set_iff.mpr (.inl (htidy.handled name hname))⟩
          · have hmem' : subscription ∈ bus.subscriptions ++ bus.creating ++ [(eventName, js)] := by
              rw [List.append_assoc]
              exact hmem
            cases List.mem_append.mp hmem' with
            | inl hold =>
                obtain ⟨hon, hin⟩ := htidy.marked subscription hold
                exact ⟨hon, List.mem_cons_of_mem _ hin⟩
            | inr hnew =>
                rw [List.mem_singleton.mp hnew]
                exact ⟨rfl, List.mem_cons_self ..⟩
          · show Stage _ js bus.connecting
            rw [hcalls]
            exact stage_created htidy hstage hmarked fun name hname =>
              InsertionMap.mem_keys_set_iff.mp hname

/-! ## Runs -/

theorem inv_settleCreating {subscription : JsString × Nat} (hinv : bus.Inv)
    (hget : bus.creating[index]? = some subscription) :
    (bus.settleCreating index true subscription).Inv := by
  have hperm : List.Perm
      (subscription :: bus.subscriptions ++ bus.creating.eraseIdx index)
      (bus.subscriptions ++ bus.creating) := by
    obtain ⟨hlt, rfl⟩ := List.getElem?_eq_some_iff.mp hget
    have hmiddle : List.Perm
        (bus.creating[index] :: (bus.subscriptions ++ bus.creating.eraseIdx index))
        (bus.subscriptions ++ bus.creating[index] :: bus.creating.eraseIdx index) :=
      List.perm_middle.symm
    exact hmiddle.trans ((List.getElem_cons_eraseIdx_perm hlt).append_left _)
  refine ⟨fun hnone => ?_, fun js hjs => ?_⟩
  · have hempty : bus.subscriptions ++ bus.creating = [] := (hinv.fresh hnone).none
    rw [(List.append_eq_nil_iff.mp hempty).2] at hget
    cases hget
  · obtain ⟨htidy, hstage⟩ := hinv.opened js hjs
    have hmem : subscription ∈ bus.creating := List.mem_of_getElem? hget
    refine ⟨⟨htidy.handled, fun other hother => htidy.marked other (hperm.mem_iff.mp hother)⟩, ?_⟩
    show Stage _ js bus.connecting
    -- only where no call is under way something is being created
    cases hcalls : bus.connecting with
    | nil =>
        rw [hcalls] at hstage
        refine fun name hname => (hstage name hname).imp_left fun honce => ?_
        show List.count (name, js)
          (subscription :: bus.subscriptions ++ bus.creating.eraseIdx index) = 1
        rw [hperm.count_eq]
        exact honce
    | cons phase rest =>
        rw [hcalls] at hstage
        have hunmarked (h : bus.subscribedEventNames = []) : False := by
          have hmarked := (htidy.marked _ (List.mem_append_right _ hmem)).2
          rw [h] at hmarked
          cases hmarked
        cases rest with
        | cons second more => exact (not_stage_two hstage).elim
        | nil =>
            cases phase with
            | connect => exact hstage.elim
            | subscribe index eventName on =>
                rw [hstage.2.idle] at hmem
                cases hmem
            | jetstreamManager => exact (hunmarked hstage).elim
            | streamInfo => exact (hunmarked hstage).elim
            | streamAdd => exact (hunmarked hstage).elim

/-- At most one call is under way. -/
theorem eq_zero_of_getElem? {calls : List Phase} {phase : Phase} (h : [phase] = calls)
    {other : Phase} (hget : calls[call]? = some other) : call = 0 ∧ phase = other := by
  subst h
  cases call with
  | zero => exact ⟨rfl, Option.some.inj hget⟩
  | succ call => cases hget

theorem inv_settled {phase : Phase} {ok : Bool} (hinv : bus.Inv)
    (hget : bus.connecting[call]? = some phase) : (bus.settle config call ok phase).Inv := by
  cases hjs : bus.js with
  | none =>
      have hfresh := hinv.fresh hjs
      obtain hnil | hcalls := hfresh.calls
      · rw [hnil] at hget
        cases hget
      · obtain ⟨rfl, rfl⟩ := eq_zero_of_getElem? hcalls.symm hget
        exact inv_settle_connect hjs hfresh hcalls
  | some js =>
      obtain ⟨htidy, hstage⟩ := hinv.opened js hjs
      rcases hcalls : bus.connecting with - | ⟨first, - | ⟨second, more⟩⟩
      · rw [hcalls] at hget
        cases hget
      · obtain ⟨rfl, rfl⟩ := eq_zero_of_getElem? hcalls.symm hget
        exact inv_settle hjs hcalls htidy (hcalls ▸ hstage)
      · exact (not_stage_two (hcalls ▸ hstage)).elim

theorem inv_step {action : Action H} (hinv : bus.Inv) (horderly : bus.Orderly action)
    (hstep : bus.step config action = some next) : next.Inv := by
  cases action with
  | connect =>
      cases hstep
      exact inv_connect hinv horderly
  | on eventName handler =>
      cases hstep
      exact inv_on hinv horderly
  | settle call ok =>
      obtain ⟨phase, hget, rfl⟩ := Option.map_eq_some_iff.mp hstep
      exact inv_settled hinv hget
  | settleCreating index ok =>
      obtain ⟨subscription, hget, rfl⟩ := Option.map_eq_some_iff.mp hstep
      obtain rfl : ok = true := horderly
      exact inv_settleCreating hinv hget

/-- In an orderly run, once `connect()` has resolved and nothing is under way, each event name
has one live subscription, or `connect()` has thrown before it. -/
theorem subscribedOnce_of_run (h : Machine.Run (step config) Orderly ({} : Bus H) bus)
    (hresolved : bus.resolved = true) (hconnecting : bus.connecting = [])
    (hcreating : bus.creating = []) : bus.Subscribed := by
  have hinv : bus.Inv := h.inv inv_init fun _ _ _ hinv horderly hstep =>
    inv_step hinv horderly hstep
  intro name hname
  cases hjs : bus.js with
  | none => cases (hinv.fresh hjs).resolved.symm.trans hresolved
  | some js =>
      have hstage := (hinv.opened js hjs).2
      rw [hconnecting] at hstage
      refine (hstage name hname).imp_left fun honce => ⟨js, rfl, ?_⟩
      unfold Once at honce
      rwa [hcreating, List.append_nil] at honce

namespace Sample

def orders : Config where
  consumerGroup := Json.ascii "orders"

def placed : JsString := Json.ascii "OrderPlaced"
def shipped : JsString := Json.ascii "OrderShipped"

/-- A call has resolved, and nothing is under way. -/
def quiet (bus : Bus Unit) : Bool :=
  bus.resolved && decide (bus.connecting = []) && decide (bus.creating = [])

theorem quiet_iff {bus : Bus Unit} : quiet bus = true ↔
    bus.resolved = true ∧ bus.connecting = [] ∧ bus.creating = [] := by
  unfold quiet
  simp only [Bool.and_eq_true, decide_eq_true_eq, and_assoc]

/-- One event name is registered before the connection, and one after it. -/
theorem subscribedOnce_of_run_late :
    ∃ bus : Bus Unit, Machine.Run (step orders) Orderly {} bus ∧
      bus.handlers.keys = [placed, shipped] ∧ bus.Subscribed := by
  have hplay : (Machine.playMeeting (step orders) Orderly
      [.on placed (), .connect, .settle 0 true, .settle 0 true, .on shipped (),
        .settleCreating 0 true] ({} : Bus Unit)).map
        (fun bus => (quiet bus, bus.handlers.keys)) =
      some (true, [placed, shipped]) := by decide +kernel
  obtain ⟨bus, hbus, hstate⟩ := Option.map_eq_some_iff.mp hplay
  obtain ⟨hquiet, hkeys⟩ := Prod.mk.inj hstate
  obtain ⟨hresolved, hconnecting, hcreating⟩ := quiet_iff.mp hquiet
  have hrun := Machine.run_of_playMeeting hbus
  exact ⟨bus, hrun, hkeys, subscribedOnce_of_run hrun hresolved hconnecting hcreating⟩

/-- An event name comes while `connect()` subscribes another one: it is subscribed by `on()`
and by the loop, that sees the new key. -/
theorem subscribed_twice :
    ¬ ∀ (config : Config) (bus : Bus Unit), Machine.Reaches (step config) {} bus →
      bus.resolved = true → bus.connecting = [] → bus.creating = [] → bus.Subscribed := by
  intro hall
  have hplay : (Machine.play (step orders)
      [.on placed (), .connect, .settle 0 true, .on shipped (), .settleCreating 0 true,
        .settle 0 true, .settle 0 true] ({} : Bus Unit)).map
        (fun bus => quiet bus && decide (shipped ∈ bus.handlers.keys) &&
          decide (bus.thrown = []) && decide (bus.js = some 0) &&
          decide (bus.subscriptions.count (shipped, 0) = 2)) = some true := by decide +kernel
  obtain ⟨bus, hbus, hstate⟩ := Option.map_eq_some_iff.mp hplay
  simp only [Bool.and_eq_true, decide_eq_true_eq] at hstate
  obtain ⟨⟨⟨⟨hquiet, hshipped⟩, hthrown⟩, hjs⟩, hcount⟩ := hstate
  obtain ⟨hresolved, hconnecting, hcreating⟩ := quiet_iff.mp hquiet
  have hrun := Machine.run_of_play (C := fun _ _ => True) (fun _ _ _ => trivial) hbus
  cases hall orders bus hrun hresolved hconnecting hcreating shipped hshipped with
  | inl hone =>
      obtain ⟨js, hsome, hone⟩ := hone
      obtain rfl : 0 = js := Option.some.inj (hjs.symm.trans hsome)
      omega
  | inr hmem =>
      rw [hthrown] at hmem
      cases hmem

end Sample

end Bus

end Noddde.Brokers.NatsEventBus
