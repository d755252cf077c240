import Mathlib.Data.List.Perm.Basic
import Noddde.Proofs.RabbitMqLoops
/-!
# One live connection of the RabbitMQ bus

An attempt has one connection, which `_connectWithRetry` closes where it fails; it sets up
the consumers of the handlers one after another, on a channel that nothing else uses.  When
it is done, whatever closes that channel or its connection is heard.
-/

namespace Noddde.Brokers.RabbitMqEventBus

def LoopPhase.channel : LoopPhase → Option Nat
  | .connect | .backoff | .createConfirmChannel _ | .close _ _ => none
  | .prefetch _ channel | .assertExchange _ channel | .setupConsumer _ channel _ _ =>
      some channel

def pending (setups : List Setup) (eventName : String) (channel : Nat) : Nat :=
  setups.countP fun setup => setup.eventName == eventName && setup.channel == channel

theorem pending_eq_zero {setups : List Setup} {ch : Nat}
    (h : ∀ setup ∈ setups, setup.channel ≠ ch) (eventName : String) :
    pending setups eventName ch = 0 := by
  apply List.countP_eq_zero.mpr
  intro setup hmem
  simp [h setup hmem]

/-- The channel of an attempt, with the consumers of the first `n` handlers. -/
structure Attached (handlers : List String) (setups : List Setup)
    (connections : Nat → ConnectionObject) (channels : Nat → ChannelObject)
    (connection channel : Option Nat) (kind : LoopKind) (c ch n : Nat) : Prop where
  connection : connection = some c
  channel : channel = some ch
  belongs : (channels ch).connection = c
  listening : kind = .reconnectPersistently → (connections c).listening = true
  setups : ∀ setup ∈ setups, setup.channel ≠ ch
  bounded : n ≤ handlers.length
  consumers : (channels ch).isOpen = true → ∀ eventName,
    (channels ch).consumers.count eventName = if eventName ∈ handlers.take n then 1 else 0

/-- A connection and a channel that are heard when they close, with one consumer for each
handler. -/
structure Served (handlers : List String) (setups : List Setup)
    (connections : Nat → ConnectionObject) (channels : Nat → ChannelObject)
    (connection channel : Option Nat) (c ch : Nat) : Prop where
  connection : connection = some c
  channel : channel = some ch
  belongs : (channels ch).connection = c
  isOpen : (channels ch).isOpen = true
  listening : (connections c).listening = true
  channelListening : (channels ch).listening = true
  consumers : ∀ eventName, (channels ch).consumers.count eventName +
    pending setups eventName ch = if eventName ∈ handlers then 1 else 0

namespace Bus

variable {resilience : Resilience} {bus next : Bus}

/-- Calls of `connect()` do not overlap with a loop; a channel closes alone only while a
reconnection is under way, or where the bus does not listen; an attempt of the reconnection
fails only once its connection has closed; an attempt succeeds only on an open channel; and
`on()` fails to set up a consumer only on a channel that is not open. -/
def Renews (resilience : Resilience) (bus : Bus) : Action → Prop
  | .settle i .resolved => ∀ loop, bus.loops[i]? = some loop →
      bus.lastAwait resilience loop.phase = true →
        ∀ ch, loop.phase.channel = some ch → (bus.channels ch).isOpen = true
  | .settle i (.rejected _) => ∀ loop, bus.loops[i]? = some loop →
      loop.kind = .reconnectPersistently →
        ∀ c, loop.phase.connection = some c → bus.isOpen c = false
  | .channelCloses ch => (bus.channels ch).listening = true → bus.reconnecting = true
  | .settleSetup j false => ∀ setup, bus.setups[j]? = some setup →
      (bus.channels setup.channel).isOpen = false
  | action => bus.Alone action

instance : DecidablePred (Renews resilience bus) := fun action =>
  match action with
  | .settle i .resolved =>
      inferInstanceAs (Decidable (∀ loop ∈ bus.loops[i]?,
        bus.lastAwait resilience loop.phase = true →
          ∀ ch ∈ loop.phase.channel, (bus.channels ch).isOpen = true))
  | .settle i (.rejected _) =>
      inferInstanceAs (Decidable (∀ loop ∈ bus.loops[i]?, loop.kind = .reconnectPersistently →
        ∀ c ∈ loop.phase.connection, bus.isOpen c = false))
  | .channelCloses ch =>
      inferInstanceAs (Decidable ((bus.channels ch).listening = true → bus.reconnecting = true))
  | .settleSetup j false =>
      inferInstanceAs (Decidable (∀ setup ∈ bus.setups[j]?,
        (bus.channels setup.channel).isOpen = false))
  | .connect =>
      inferInstanceAs (Decidable (bus.connected = true ∨ bus.closed = false ∧ bus.loops = []))
  | .on _ | .close | .settleSetup _ true | .settleClose | .connectionCloses _ => isTrue trivial

abbrev AttachedTo (bus : Bus) (kind : LoopKind) (c ch n : Nat) : Prop :=
  Attached bus.handlers bus.setups bus.connections bus.channels bus.connection bus.channel kind
    c ch n

abbrev ServedBy (bus : Bus) (c ch : Nat) : Prop :=
  Served bus.handlers bus.setups bus.connections bus.channels bus.connection bus.channel c ch

def Attempt (bus : Bus) (loop : Loop) : Prop :=
  match loop.phase with
  | .connect | .backoff | .close _ _ => True
  | .createConfirmChannel c => bus.connection = some c ∧
      (loop.kind = .reconnectPersistently → (bus.connections c).listening = true)
  | .prefetch c ch | .assertExchange c ch => bus.AttachedTo loop.kind c ch 0
  | .setupConsumer c ch index setup => bus.AttachedTo loop.kind c ch index ∧
      (loop.kind = .reconnectPersistently → (bus.channels ch).listening = true) ∧
      bus.handlers[index]? = some setup.eventName ∧ setup.channel = ch

/-- No other connection is open. -/
def Only (connections : Nat → ConnectionObject) (held : Option Nat) : Prop :=
  ∀ c, (connections c).isOpen = true → held = some c

/-- The connection of the loop in progress, or else that of a bus that is connected. -/
def held (bus : Bus) : Option Nat :=
  match bus.loops with
  | [] => if bus.connected then bus.connection else none
  | loop :: _ => loop.phase.connection

structure RenewInv (bus : Bus) : Prop where
  only : bus.closed = false → Only bus.connections bus.held
  attempt : bus.closed = false → ∀ loop ∈ bus.loops, bus.Attempt loop
  served : bus.closed = false → bus.connected = true → ∃ c ch, bus.ServedBy c ch

/-! ## The parts of a step -/

theorem only_of_none {connections : Nat → ConnectionObject} (h : Only connections none)
    (held : Option Nat) : Only connections held := by
  intro c hopen
  cases h c hopen

theorem only_update {connections : Nat → ConnectionObject} {held : Option Nat}
    (h : Only connections held) {connection : Nat} {object : ConnectionObject}
    (hobject : object.isOpen = true → (connections connection).isOpen = true) :
    Only (Function.update connections connection object) held := by
  intro c hopen
  by_cases heq : c = connection
  · subst heq
    rw [Function.update_self] at hopen
    exact h c (hobject hopen)
  · rw [Function.update_of_ne heq] at hopen
    exact h c hopen

theorem only_listen {connections : Nat → ConnectionObject} {held : Option Nat}
    (h : Only connections held) (connection : Nat) :
    Only (Function.update connections connection (connections connection).listen) held :=
  only_update h fun hopen => hopen

theorem only_close {connections : Nat → ConnectionObject} {held : Option Nat}
    (h : Only connections held) (connection : Nat) :
    Only (Function.update connections connection (connections connection).close) held := by
  apply only_update h
  intro hopen
  cases hopen

/-- The connection that could be open has closed. -/
theorem only_lost {connections : Nat → ConnectionObject} {held : Option Nat}
    (h : Only connections held) (hlost : ∀ c, held = some c → (connections c).isOpen = false) :
    Only connections none := by
  intro c hopen
  have hclosed := hlost c (h c hopen)
  rw [hopen] at hclosed
  cases hclosed

/-- After the only open connection is closed, none is open. -/
theorem only_closed {connections : Nat → ConnectionObject} {c : Nat}
    (h : Only connections (some c)) :
    Only (Function.update connections c (connections c).close) none := by
  apply only_lost (only_close h c)
  rintro _ ⟨⟩
  rw [Function.update_self]
  rfl

theorem only_add {connections : Nat → ConnectionObject} (h : Only connections none)
    (made : Nat) : Only (Function.update connections made { isOpen := true }) (some made) := by
  intro c hopen
  by_cases heq : c = made
  · rw [heq]
  · rw [Function.update_of_ne heq] at hopen
    cases h c hopen

theorem renew_of_closed (hclosed : bus.closed = true) : bus.RenewInv := by
  refine ⟨fun hopen => ?_, fun hopen => ?_, fun hopen => ?_⟩
  · rw [hclosed] at hopen
    cases hopen
  · rw [hclosed] at hopen
    cases hopen
  · rw [hclosed] at hopen
    cases hopen

/-- What is known at a step of the loop at an index, with the connection of its attempt: it
is the only one, unless the bus is closed. -/
structure Working (bus : Bus) (i : Nat) (held : Option Nat) : Prop where
  alone : bus.closed = false → i = 0 ∧ ∃ loop, bus.loops = [loop]
  down : bus.closed = false → bus.connected = false
  only : bus.closed = false → Only bus.connections held

theorem renew_await {i : Nat} {loop : Loop} (h : bus.Working i loop.phase.connection)
    (hattempt : bus.closed = false → bus.Attempt loop) : (bus.await i loop).RenewInv := by
  have hloops (hclosed : bus.closed = false) : (bus.await i loop).loops = [loop] := by
    obtain ⟨hzero, only, hloops⟩ := h.alone hclosed
    show bus.loops.set i loop = [loop]
    rw [hzero, hloops]
    rfl
  refine ⟨fun hclosed => ?_, fun hclosed other hmem => ?_, fun hclosed hconnected => ?_⟩
  · unfold held
    rw [hloops hclosed]
    exact h.only hclosed
  · rw [hloops hclosed] at hmem
    rw [List.mem_singleton.mp hmem]
    exact hattempt hclosed
  · have hwas : bus.connected = true := hconnected
    rw [h.down hclosed] at hwas
    cases hwas

theorem loops_endLoop {i : Nat} {held : Option Nat} (h : bus.Working i held)
    (hclosed : bus.closed = false) : bus.loops.eraseIdx i = [] := by
  obtain ⟨hzero, only, hloops⟩ := h.alone hclosed
  rw [hzero, hloops]
  rfl

theorem renew_endLoop {i : Nat} (h : bus.Working i none) : (bus.endLoop i).RenewInv := by
  refine ⟨fun hclosed => only_of_none (h.only hclosed) _, fun hclosed loop hmem => ?_,
    fun hclosed hconnected => ?_⟩
  · have hmem' : loop ∈ bus.loops.eraseIdx i := hmem
    rw [loops_endLoop h hclosed] at hmem'
    cases hmem'
  · have hwas : bus.connected = true := hconnected
    rw [h.down hclosed] at hwas
    cases hwas

theorem renew_afterCleanup {i attempt : Nat} {mismatch : Bool} (h : bus.Working i none) :
    (bus.afterCleanup resilience i attempt mismatch).RenewInv := by
  have hcleaned : ({ bus with connection := none, channel := none } : Bus).Working i none :=
    ⟨h.alone, h.down, h.only⟩
  unfold afterCleanup
  simp only
  split_ifs
  · exact renew_endLoop hcleaned
  · exact renew_await hcleaned fun _ => trivial
  · exact renew_endLoop hcleaned

/-- The end of a step of the reconnection that does not succeed. -/
theorem renew_unless_closed {i : Nat} {phase : LoopPhase}
    (h : bus.Working i phase.connection)
    (hattempt : bus.Attempt ⟨.reconnectPersistently, phase⟩) :
    (if bus.closed then bus.stopReconnecting i
      else bus.await i ⟨.reconnectPersistently, phase⟩).RenewInv := by
  split_ifs with hclosed
  · exact renew_of_closed hclosed
  · exact renew_await h fun _ => hattempt

theorem renew_attemptFails {i : Nat} {connection : Option Nat} {mismatch : Bool}
    {kind : LoopKind} (h : bus.Working i connection)
    (hlost : kind = .reconnectPersistently →
      ∀ c, connection = some c → bus.isOpen c = false) :
    (bus.attemptFails resilience i connection mismatch kind).RenewInv := by
  cases kind with
  | connectWithRetry attempt =>
      cases connection with
      | some connection => exact renew_await h fun _ => trivial
      | none =>
          show (bus.afterCleanup resilience i attempt mismatch).RenewInv
          exact renew_afterCleanup h
  | reconnectPersistently =>
      have hlost : bus.Working i none :=
        ⟨h.alone, h.down, fun hclosed => only_lost (h.only hclosed) (hlost rfl)⟩
      exact renew_unless_closed hlost trivial

/-- The attempt succeeds: the consumers are there, and both objects are heard. -/
theorem renew_complete {i c ch : Nat} {kind : LoopKind} (h : bus.Working i (some c))
    (hattached : bus.closed = false → bus.AttachedTo kind c ch bus.handlers.length)
    (hlistening : bus.closed = false → kind = .reconnectPersistently →
      (bus.channels ch).listening = true)
    (hopen : (bus.channels ch).isOpen = true) :
    (bus.complete i c ch kind).RenewInv := by
  have hconsumers (hclosed : bus.closed = false) (eventName : String) :
      (bus.channels ch).consumers.count eventName + pending bus.setups eventName ch =
        if eventName ∈ bus.handlers then 1 else 0 := by
    have hcount := (hattached hclosed).consumers hopen eventName
    rw [List.take_length] at hcount
    rw [pending_eq_zero (hattached hclosed).setups, hcount, Nat.add_zero]
  have hends (hclosed : bus.closed = false) (loop : Loop) (hmem : loop ∈ bus.loops.eraseIdx i) :
      False := by
    rw [loops_endLoop h hclosed] at hmem
    cases hmem
  -- The connection of the attempt is that of the bus from now on.
  have hheld (hclosed : bus.closed = false) : (bus.complete i c ch kind).held = some c := by
    have hends := loops_endLoop h hclosed
    have hnone : (bus.complete i c ch kind).loops = [] := by
      cases kind <;> exact hends
    have hconnected : (bus.complete i c ch kind).connected = true := by
      cases kind <;> rfl
    have hconnection : (bus.complete i c ch kind).connection = bus.connection := by
      cases kind <;> rfl
    unfold held
    rw [hnone]
    simp only [hconnected, if_true]
    rw [hconnection]
    exact (hattached hclosed).connection
  cases kind with
  | connectWithRetry attempt =>
      refine ⟨fun hclosed => ?_, fun hclosed loop hmem => ?_, fun hclosed _ => ?_⟩
      · rw [hheld hclosed]
        exact only_listen (h.only hclosed) c
      · exact (hends hclosed loop hmem).elim
      · have hold := hattached hclosed
        have hobject : ((bus.updateConnection c .listen).updateChannel ch .listen).channels ch =
            (bus.channels ch).listen := Function.update_self ..
        have hconnection : ((bus.updateConnection c .listen).updateChannel ch
            .listen).connections c = (bus.connections c).listen := Function.update_self ..
        refine ⟨c, ch, hold.connection, hold.channel, ?_, ?_, ?_, ?_, fun eventName => ?_⟩
        · show (((bus.updateConnection c .listen).updateChannel ch .listen).channels
            ch).connection = c
          rw [hobject]
          exact hold.belongs
        · show (((bus.updateConnection c .listen).updateChannel ch .listen).channels
            ch).isOpen = true
          rw [hobject]
          exact hopen
        · show (((bus.updateConnection c .listen).updateChannel ch .listen).connections
            c).listening = true
          rw [hconnection]
          rfl
        · show (((bus.updateConnection c .listen).updateChannel ch .listen).channels
            ch).listening = true
          rw [hobject]
          rfl
        · show (((bus.updateConnection c .listen).updateChannel ch .listen).channels
            ch).consumers.count eventName + _ = _
          rw [hobject]
          exact hconsumers hclosed eventName
  | reconnectPersistently =>
      refine ⟨fun hclosed => ?_, fun hclosed loop hmem => ?_, fun hclosed _ => ?_⟩
      · rw [hheld hclosed]
        exact h.only hclosed
      · exact (hends hclosed loop hmem).elim
      · have hold := hattached hclosed
        exact ⟨c, ch, hold.connection, hold.channel, hold.belongs, hopen, hold.listening rfl,
          hlistening hclosed rfl, hconsumers hclosed⟩

theorem nextSetup_some {index : Nat} {setup : Setup}
    (h : bus.nextSetup resilience index = some setup) :
    bus.handlers[index]? = some setup.eventName ∧ bus.channel = some setup.channel := by
  unfold nextSetup at h
  split at h
  · rename_i eventName channel hname hchannel
    cases h
    exact ⟨hname, hchannel⟩
  · cases h

theorem nextSetup_none {index ch : Nat} (h : bus.nextSetup resilience index = none)
    (hchannel : bus.channel = some ch) : bus.handlers.length ≤ index := by
  unfold nextSetup at h
  rw [hchannel] at h
  cases hname : bus.handlers[index]? with
  | some eventName =>
      rw [hname] at h
      cases h
  | none => exact List.getElem?_eq_none_iff.mp hname

theorem renew_setUpFrom {i c ch index : Nat} {kind : LoopKind} (h : bus.Working i (some c))
    (hattached : bus.closed = false → bus.AttachedTo kind c ch index)
    (hlistening : bus.closed = false → kind = .reconnectPersistently →
      (bus.channels ch).listening = true)
    (hlast : bus.nextSetup resilience index = none → (bus.channels ch).isOpen = true) :
    (bus.setUpFrom resilience i kind c ch index).RenewInv := by
  unfold setUpFrom
  cases hnext : bus.nextSetup resilience index with
  | some setup =>
      apply renew_await h
      intro hclosed
      have hold := hattached hclosed
      obtain ⟨hname, hchannel⟩ := nextSetup_some hnext
      have hsame : setup.channel = ch :=
        Option.some.inj (hchannel.symm.trans hold.channel)
      exact ⟨hold, hlistening hclosed, hname, hsame⟩
  | none =>
      apply renew_complete h _ hlistening (hlast hnext)
      intro hclosed
      have hold := hattached hclosed
      have hlength := nextSetup_none hnext hold.channel
      have heq : bus.handlers.length = index := Nat.le_antisymm hlength hold.bounded
      rw [heq]
      exact hold

theorem working_of_channels {i : Nat} {held : Option Nat} {channels : Nat → ChannelObject}
    (h : bus.Working i held) : ({ bus with channels } : Bus).Working i held :=
  ⟨h.alone, h.down, h.only⟩

theorem addConsumer_other {eventName : String} {ch other : Nat} (h : other ≠ ch) :
    (bus.updateChannel ch (.addConsumer eventName)).channels other = bus.channels other :=
  Function.update_of_ne h ..

theorem addConsumer_self {eventName : String} {ch : Nat} :
    (bus.updateChannel ch (.addConsumer eventName)).channels ch =
      (bus.channels ch).addConsumer eventName :=
  Function.update_self ..

@[simp] theorem isOpen_addConsumer {object : ChannelObject} {eventName : String} :
    (object.addConsumer eventName).isOpen = object.isOpen := by
  unfold ChannelObject.addConsumer
  split_ifs <;> rfl

@[simp] theorem connection_addConsumer {object : ChannelObject} {eventName : String} :
    (object.addConsumer eventName).connection = object.connection := by
  unfold ChannelObject.addConsumer
  split_ifs <;> rfl

@[simp] theorem listening_addConsumer {object : ChannelObject} {eventName : String} :
    (object.addConsumer eventName).listening = object.listening := by
  unfold ChannelObject.addConsumer
  split_ifs <;> rfl

theorem count_addConsumer {object : ChannelObject} {eventName other : String}
    (hopen : object.isOpen = true) :
    (object.addConsumer eventName).consumers.count other =
      object.consumers.count other + if eventName = other then 1 else 0 := by
  rw [ChannelObject.addConsumer, if_pos hopen, List.count_cons]
  simp

/-- A consumer more on the channel of the attempt: that of the next handler. -/
theorem attached_addConsumer {kind : LoopKind} {c ch index : Nat} {eventName : String}
    (h : bus.AttachedTo kind c ch index) (hnodup : bus.handlers.Nodup)
    (hname : bus.handlers[index]? = some eventName) :
    (bus.updateChannel ch (.addConsumer eventName)).AttachedTo kind c ch (index + 1) := by
  obtain ⟨hlt, hget⟩ := List.getElem?_eq_some_iff.mp hname
  refine ⟨h.connection, h.channel, ?_, h.listening, h.setups, hlt, fun hopen other => ?_⟩
  · rw [addConsumer_self, connection_addConsumer]
    exact h.belongs
  · rw [addConsumer_self, isOpen_addConsumer] at hopen
    rw [addConsumer_self, count_addConsumer hopen, h.consumers hopen other]
    have htake : bus.handlers.take (index + 1) = bus.handlers.take index ++ [eventName] := by
      rw [List.take_add_one, hname]
      rfl
    have hfresh : eventName ∉ bus.handlers.take index := by
      have htaken : (bus.handlers.take (index + 1)).Nodup :=
        hnodup.sublist (List.take_sublist ..)
      rw [htake] at htaken
      intro hmem
      have hdisjoint := (List.nodup_append.mp htaken).2.2 eventName hmem eventName
        (List.mem_singleton_self _)
      exact hdisjoint rfl
    show _ = if other ∈ bus.handlers.take (index + 1) then 1 else 0
    have hmem : other ∈ bus.handlers.take (index + 1) ↔
        other ∈ bus.handlers.take index ∨ other = eventName := by
      rw [htake, List.mem_append, List.mem_singleton]
    by_cases heq : eventName = other
    · subst heq
      simp [hmem, hfresh]
    · have hne : other ≠ eventName := fun h => heq h.symm
      simp [hmem, heq, hne]

/-- What an attempt needs of the answer that makes it succeed. -/
def Answerable (resilience : Resilience) (bus : Bus) (phase : LoopPhase) : Prop :=
  bus.lastAwait resilience phase = true →
    ∀ ch, phase.channel = some ch → (bus.channels ch).isOpen = true

theorem renew_connected {i : Nat} {kind : LoopKind} (h : bus.Working i none) :
    (bus.resolve resilience i kind .connect).RenewInv := by
  have honly (hclosed : bus.closed = false) :=
    only_add (h.only hclosed) bus.connectionsMade
  cases kind with
  | connectWithRetry attempt =>
      have hadded : bus.addConnection.Working i (some bus.connectionsMade) :=
        ⟨h.alone, h.down, honly⟩
      apply renew_await hadded
      intro _
      refine ⟨rfl, fun hkind => ?_⟩
      cases hkind
  | reconnectPersistently =>
      have hadded : (bus.addConnection.updateConnection bus.connectionsMade
          .listen).Working i (some bus.connectionsMade) :=
        ⟨h.alone, h.down, fun hclosed => only_listen (honly hclosed) bus.connectionsMade⟩
      apply renew_await hadded
      intro _
      refine ⟨rfl, fun _ => ?_⟩
      have hlisten : (bus.addConnection.updateConnection bus.connectionsMade
          .listen).connections bus.connectionsMade =
            (bus.addConnection.connections bus.connectionsMade).listen := Function.update_self ..
      show ((bus.addConnection.updateConnection bus.connectionsMade
        .listen).connections bus.connectionsMade).listening = true
      rw [hlisten]
      rfl

theorem attached_addChannel {kind : LoopKind} {c : Nat} (hsound : bus.Sound)
    (hattempt : bus.Attempt ⟨kind, .createConfirmChannel c⟩) :
    (bus.addChannel c).AttachedTo kind c bus.channelsMade 0 := by
  have hself : (bus.addChannel c).channels bus.channelsMade =
      { connection := c, isOpen := bus.isOpen c } := Function.update_self ..
  refine ⟨hattempt.1, rfl, ?_, hattempt.2, fun setup hmem => ?_, Nat.zero_le _,
    fun _ eventName => ?_⟩
  · rw [hself]
  · have hlt := hsound.setups setup hmem
    omega
  · rw [hself]
    simp

theorem attached_listen {kind : LoopKind} {c ch n : Nat} (h : bus.AttachedTo kind c ch n) :
    (bus.updateChannel ch .listen).AttachedTo kind c ch n := by
  have hself : (bus.updateChannel ch .listen).channels ch = (bus.channels ch).listen :=
    Function.update_self ..
  refine ⟨h.connection, h.channel, ?_, h.listening, h.setups, h.bounded,
    fun hopen eventName => ?_⟩
  · rw [hself]
    exact h.belongs
  · rw [hself] at hopen ⊢
    exact h.consumers hopen eventName

theorem renew_exchange {i c ch : Nat} {kind : LoopKind} (h : bus.Working i (some c))
    (hattempt : bus.closed = false → bus.Attempt ⟨kind, .assertExchange c ch⟩)
    (hanswer : bus.Answerable resilience (.assertExchange c ch)) :
    (bus.resolve resilience i kind (.assertExchange c ch)).RenewInv := by
  have hlast (hnone : bus.nextSetup resilience 0 = none) : (bus.channels ch).isOpen = true := by
    apply hanswer _ ch rfl
    show (bus.nextSetup resilience 0).isNone = true
    rw [hnone]
    rfl
  cases kind with
  | connectWithRetry attempt =>
      apply renew_setUpFrom h hattempt _ hlast
      intro _ hkind
      cases hkind
  | reconnectPersistently =>
      have hself : (bus.updateChannel ch .listen).channels ch = (bus.channels ch).listen :=
        Function.update_self ..
      have hlistening : (bus.updateChannel ch .listen).Working i (some c) :=
        working_of_channels h
      apply renew_setUpFrom hlistening
      · exact fun hclosed => attached_listen (hattempt hclosed)
      · intro _ _
        rw [hself]
        rfl
      · intro hnone
        rw [hself]
        exact hlast hnone

theorem renew_setup {i c ch index : Nat} {kind : LoopKind} {setup : Setup}
    (h : bus.Working i (some c)) (hnodup : bus.handlers.Nodup)
    (hattempt : bus.closed = false → bus.Attempt ⟨kind, .setupConsumer c ch index setup⟩)
    (hanswer : bus.Answerable resilience (.setupConsumer c ch index setup)) :
    (bus.resolve resilience i kind (.setupConsumer c ch index setup)).RenewInv := by
  cases hnext : setup.awaits.next with
  | some awaits =>
      simp only [resolve, hnext]
      exact renew_await h hattempt
  | none =>
      simp only [resolve, hnext]
      have hadded : (bus.updateChannel setup.channel (.addConsumer setup.eventName)).Working i
          (some c) := working_of_channels h
      have hopen (other : Nat) :
          ((bus.updateChannel setup.channel (.addConsumer setup.eventName)).channels
            other).isOpen = (bus.channels other).isOpen := by
        by_cases heq : other = setup.channel
        · rw [heq, addConsumer_self, isOpen_addConsumer]
        · rw [addConsumer_other heq]
      apply renew_setUpFrom hadded
      · intro hclosed
        obtain ⟨hattached, -, hname, hchannel⟩ := hattempt hclosed
        rw [hchannel]
        exact attached_addConsumer hattached hnodup hname
      · intro hclosed hkind
        obtain ⟨-, hlistening, -, hchannel⟩ := hattempt hclosed
        rw [hchannel, addConsumer_self, listening_addConsumer]
        exact hlistening hkind
      · intro hnone
        rw [hopen]
        have hsame : bus.nextSetup resilience (index + 1) = none := hnone
        apply hanswer _ ch rfl
        show (setup.awaits.next.isNone && (bus.nextSetup resilience (index + 1)).isNone) = true
        rw [hnext, hsame]
        rfl

theorem renew_resolve {i : Nat} {kind : LoopKind} {phase : LoopPhase}
    (h : bus.Working i phase.connection) (hsound : bus.Sound) (hinv : bus.RenewInv)
    (hattempt : bus.closed = false → bus.Attempt ⟨kind, phase⟩)
    (hanswer : bus.Answerable resilience phase) :
    (bus.resolve resilience i kind phase).RenewInv := by
  cases phase with
  | connect => exact renew_connected h
  | createConfirmChannel c =>
      have hadded : (bus.addChannel c).Working i (some c) := ⟨h.alone, h.down, h.only⟩
      apply renew_await hadded
      intro hclosed
      exact attached_addChannel hsound (hattempt hclosed)
  | prefetch c ch => exact renew_await h hattempt
  | assertExchange c ch => exact renew_exchange h hattempt hanswer
  | setupConsumer c ch index setup => exact renew_setup h hsound.handlers hattempt hanswer
  | close c mismatch =>
      cases kind with
      | connectWithRetry attempt =>
          -- The cleanup closes the one connection that can be open.
          have hclose : (bus.closeConnection c).Working i none :=
            ⟨h.alone, h.down, fun hclosed => only_closed (h.only hclosed)⟩
          exact renew_afterCleanup hclose
      | reconnectPersistently => exact hinv
  | backoff =>
      cases kind with
      | connectWithRetry attempt => exact renew_await h fun _ => trivial
      | reconnectPersistently => exact renew_unless_closed h trivial

theorem renew_reject {i : Nat} {kind : LoopKind} {phase : LoopPhase} {mismatch : Bool}
    (h : bus.Working i phase.connection) (hsound : bus.Sound) (hinv : bus.RenewInv)
    (hattempt : bus.closed = false → bus.Attempt ⟨kind, phase⟩)
    (hlost : kind = .reconnectPersistently →
      ∀ c, phase.connection = some c → bus.isOpen c = false) :
    (bus.reject resilience i kind mismatch phase).RenewInv := by
  have hnever (hlast : bus.lastAwait resilience phase = false) :
      bus.Answerable resilience phase := by
    intro htrue
    rw [hlast] at htrue
    cases htrue
  cases phase with
  | close c mismatch => exact renew_resolve h hsound hinv hattempt (hnever rfl)
  | backoff => exact renew_resolve h hsound hinv hattempt (hnever rfl)
  | connect =>
      simp only [reject]
      exact renew_attemptFails h hlost
  | createConfirmChannel c =>
      simp only [reject]
      exact renew_attemptFails h hlost
  | prefetch c ch =>
      simp only [reject]
      exact renew_attemptFails h hlost
  | assertExchange c ch =>
      simp only [reject]
      exact renew_attemptFails h hlost
  | setupConsumer c ch index setup =>
      simp only [reject]
      exact renew_attemptFails h hlost

/-! ## The steps -/

theorem working_of_stage {i : Nat} {loop : Loop} (hstage : bus.Stage) (hinv : bus.RenewInv)
    (hloop : bus.loops[i]? = some loop) : bus.Working i loop.phase.connection := by
  have hmem := List.mem_of_getElem? hloop
  have hheld (hclosed : bus.closed = false) : bus.held = loop.phase.connection := by
    obtain ⟨other, hother⟩ : ∃ other, bus.loops = [other] := by
      cases hstage with
      | idle hloops =>
          rw [hloops] at hmem
          cases hmem
      | up _ hloops =>
          rw [hloops] at hmem
          cases hmem
      | connecting attempt phase hloops => exact ⟨_, hloops⟩
      | reconnecting phase _ hloops => exact ⟨_, hloops⟩
      | closed hwas =>
          rw [hclosed] at hwas
          cases hwas
    rw [hother] at hmem
    unfold held
    rw [hother, List.mem_singleton.mp hmem]
  refine ⟨fun hclosed => ?_, fun hclosed => ?_, fun hclosed => hheld hclosed ▸ hinv.only hclosed⟩
  · cases hstage with
    | idle hloops =>
        rw [hloops] at hmem
        cases hmem
    | up _ hloops =>
        rw [hloops] at hmem
        cases hmem
    | connecting attempt phase hloops => exact ⟨(only_loop hloops hloop).1, _, hloops⟩
    | reconnecting phase _ hloops => exact ⟨(only_loop hloops hloop).1, _, hloops⟩
    | closed hwas =>
        rw [hclosed] at hwas
        cases hwas
  · cases hstage with
    | idle _ hconnected => exact hconnected
    | up _ hloops =>
        rw [hloops] at hmem
        cases hmem
    | connecting _ _ _ hconnected => exact hconnected
    | reconnecting _ _ _ hconnected => exact hconnected
    | closed hwas =>
        rw [hclosed] at hwas
        cases hwas

theorem renew_settle {i : Nat} {loop : Loop} {answer : Answer} (hstage : bus.Stage)
    (hsound : bus.Sound) (hinv : bus.RenewInv) (hloop : bus.loops[i]? = some loop)
    (hrenews : bus.Renews resilience (.settle i answer)) :
    (bus.settle resilience i loop answer).RenewInv := by
  have hworking := working_of_stage hstage hinv hloop
  have hattempt (hclosed : bus.closed = false) : bus.Attempt ⟨loop.kind, loop.phase⟩ :=
    hinv.attempt hclosed loop (List.mem_of_getElem? hloop)
  cases answer with
  | resolved =>
      exact renew_resolve hworking hsound hinv hattempt (hrenews loop hloop)
  | rejected mismatch =>
      exact renew_reject hworking hsound hinv hattempt (hrenews loop hloop)

/-- An attempt goes on next to what leaves its channel alone. -/
theorem attached_frame {connections : Nat → ConnectionObject}
    {channels : Nat → ChannelObject} {setups : List Setup} {kind : LoopKind} {c ch n : Nat}
    (h : bus.AttachedTo kind c ch n)
    (hconnections : ∀ c, (connections c).listening = (bus.connections c).listening)
    (hbelongs : ∀ ch, (channels ch).connection = (bus.channels ch).connection)
    (hchannels : (∀ setup ∈ bus.setups, setup.channel ≠ ch) → (channels ch).isOpen = true →
      channels ch = bus.channels ch)
    (hsetups : ∀ setup ∈ setups, ∃ old ∈ bus.setups, old.channel = setup.channel) :
    ({ bus with connections, channels, setups } : Bus).AttachedTo kind c ch n := by
  refine ⟨h.connection, h.channel, (hbelongs ch).trans h.belongs, fun hkind => ?_,
    fun setup hmem => ?_, h.bounded, fun hopen eventName => ?_⟩
  · show (connections c).listening = true
    rw [hconnections]
    exact h.listening hkind
  · obtain ⟨old, hold, heq⟩ := hsetups setup hmem
    rw [← heq]
    exact h.setups old hold
  · have hsame := hchannels h.setups hopen
    have hwas : (channels ch).isOpen = true := hopen
    show (channels ch).consumers.count eventName = _
    rw [hsame] at hwas ⊢
    exact h.consumers hwas eventName

theorem attempt_frame {connections : Nat → ConnectionObject}
    {channels : Nat → ChannelObject} {setups : List Setup} {loop : Loop}
    (h : bus.Attempt loop)
    (hconnections : ∀ c, (connections c).listening = (bus.connections c).listening)
    (hbelongs : ∀ ch, (channels ch).connection = (bus.channels ch).connection)
    (hlistening : ∀ ch, (channels ch).listening = (bus.channels ch).listening)
    (hchannels : ∀ ch, (∀ setup ∈ bus.setups, setup.channel ≠ ch) →
      (channels ch).isOpen = true → channels ch = bus.channels ch)
    (hsetups : ∀ setup ∈ setups, ∃ old ∈ bus.setups, old.channel = setup.channel) :
    ({ bus with connections, channels, setups } : Bus).Attempt loop := by
  obtain ⟨kind, phase⟩ := loop
  cases phase with
  | connect => trivial
  | backoff => trivial
  | close c mismatch => trivial
  | createConfirmChannel c =>
      refine ⟨h.1, fun hkind => ?_⟩
      show (connections c).listening = true
      rw [hconnections]
      exact h.2 hkind
  | prefetch c ch => exact attached_frame h hconnections hbelongs (hchannels ch) hsetups
  | assertExchange c ch => exact attached_frame h hconnections hbelongs (hchannels ch) hsetups
  | setupConsumer c ch index setup =>
      obtain ⟨hattached, hheard, hname, hchannel⟩ := h
      refine ⟨attached_frame hattached hconnections hbelongs (hchannels ch) hsetups,
        fun hkind => ?_, hname, hchannel⟩
      show (channels ch).listening = true
      rw [hlistening]
      exact hheard hkind

theorem attached_push {kind : LoopKind} {c ch n : Nat} {eventName : String}
    (h : bus.AttachedTo kind c ch n) :
    ({ bus with handlers := bus.handlers ++ [eventName] } : Bus).AttachedTo kind c ch n := by
  refine ⟨h.connection, h.channel, h.belongs, h.listening, h.setups, ?_, fun hopen other => ?_⟩
  · have hbounded := h.bounded
    rw [List.length_append]
    omega
  · have htake : (bus.handlers ++ [eventName]).take n = bus.handlers.take n :=
      List.take_append_of_le_length h.bounded
    rw [htake]
    exact h.consumers hopen other

theorem attempt_push {loop : Loop} {eventName : String} (h : bus.Attempt loop) :
    ({ bus with handlers := bus.handlers ++ [eventName] } : Bus).Attempt loop := by
  obtain ⟨kind, phase⟩ := loop
  cases phase with
  | connect => trivial
  | backoff => trivial
  | close c mismatch => trivial
  | createConfirmChannel c => exact h
  | prefetch c ch => exact attached_push h
  | assertExchange c ch => exact attached_push h
  | setupConsumer c ch index setup =>
      obtain ⟨hattached, hheard, hname, hchannel⟩ := h
      refine ⟨attached_push hattached, hheard, ?_, hchannel⟩
      obtain ⟨hlt, -⟩ := List.getElem?_eq_some_iff.mp hname
      show (bus.handlers ++ [eventName])[index]? = _
      rw [List.getElem?_append_left hlt]
      exact hname

/-! ## The consumers of a bus that is connected -/

theorem pending_append {setups started : List Setup} {eventName : String} {ch : Nat} :
    pending (setups ++ started) eventName ch =
      pending setups eventName ch + pending started eventName ch :=
  List.countP_append

theorem pending_set {setups : List Setup} {j : Nat} {setup other : Setup} {eventName : String}
    {ch : Nat} (h : setups[j]? = some setup) (hname : other.eventName = setup.eventName)
    (hchannel : other.channel = setup.channel) :
    pending (setups.set j other) eventName ch = pending setups eventName ch := by
  obtain ⟨hlt, hget⟩ := List.getElem?_eq_some_iff.mp h
  have hpos : (setup.eventName == eventName && setup.channel == ch) = true →
      0 < pending setups eventName ch := by
    intro hmatch
    exact List.countP_pos_iff.mpr ⟨setup, List.mem_of_getElem? h, hmatch⟩
  unfold pending at hpos ⊢
  rw [List.countP_set hlt, hget, hname, hchannel]
  split_ifs with hmatch
  · have hle := hpos hmatch
    omega
  · omega

theorem pending_eraseIdx {setups : List Setup} {j : Nat} {setup : Setup} {eventName : String}
    {ch : Nat} (h : setups[j]? = some setup) :
    pending setups eventName ch = pending (setups.eraseIdx j) eventName ch +
      if setup.eventName = eventName ∧ setup.channel = ch then 1 else 0 := by
  obtain ⟨hlt, hget⟩ := List.getElem?_eq_some_iff.mp h
  have hperm := List.getElem_cons_eraseIdx_perm hlt
  rw [hget] at hperm
  have hcount := hperm.countP_eq fun setup =>
    setup.eventName == eventName && setup.channel == ch
  rw [List.countP_cons] at hcount
  unfold pending
  rw [← hcount]
  simp

/-- `on()` for a new event name starts to set up its consumer. -/
theorem served_startSetup {c ch : Nat} {eventName : String} (h : bus.ServedBy c ch)
    (hnew : eventName ∉ bus.handlers) :
    (startSetup resilience { bus with handlers := bus.handlers ++ [eventName] }
      eventName).ServedBy c ch := by
  refine ⟨h.connection, h.channel, h.belongs, h.isOpen, h.listening, h.channelListening,
    fun other => ?_⟩
  have hold := h.consumers other
  have hstarted : (startSetup resilience { bus with handlers := bus.handlers ++ [eventName] }
      eventName).setups =
        bus.setups ++ [⟨eventName, ch, SetupStep.first resilience⟩] := by
    unfold startSetup
    simp only [h.channel]
    rfl
  rw [hstarted, pending_append, ← Nat.add_assoc]
  show (bus.channels ch).consumers.count other + _ + _ =
    if other ∈ bus.handlers ++ [eventName] then 1 else 0
  rw [hold]
  by_cases heq : eventName = other
  · subst heq
    simp [hnew, pending]
  · have hne : other ≠ eventName := fun h => heq h.symm
    simp [heq, hne, pending]

theorem served_settleSetup {c ch j : Nat} {setup : Setup} {ok : Bool} (h : bus.ServedBy c ch)
    (hsetup : bus.setups[j]? = some setup)
    (hfails : ok = false → (bus.channels setup.channel).isOpen = false) :
    (bus.settleSetup j setup ok).ServedBy c ch := by
  have herase (other : String) := @pending_eraseIdx bus.setups j setup other ch hsetup
  cases ok with
  | false =>
      have hne : setup.channel ≠ ch := by
        intro heq
        have hclosed := hfails rfl
        rw [heq, h.isOpen] at hclosed
        cases hclosed
      refine ⟨h.connection, h.channel, h.belongs, h.isOpen, h.listening, h.channelListening,
        fun other => ?_⟩
      have hsame := herase other
      rw [if_neg fun hboth => hne hboth.2] at hsame
      show (bus.channels ch).consumers.count other + pending (bus.setups.eraseIdx j) other ch =
        if other ∈ bus.handlers then 1 else 0
      rw [← h.consumers other, hsame, Nat.add_zero]
  | true =>
      cases hnext : setup.awaits.next with
      | some awaits =>
          simp only [settleSetup, hnext, if_true]
          refine ⟨h.connection, h.channel, h.belongs, h.isOpen, h.listening, h.channelListening,
            fun other => ?_⟩
          have hsame : pending (bus.setups.set j { setup with awaits }) other ch =
              pending bus.setups other ch := pending_set hsetup rfl rfl
          show (bus.channels ch).consumers.count other + pending (bus.setups.set j _) other ch = _
          rw [hsame]
          exact h.consumers other
      | none =>
          simp only [settleSetup, hnext, if_true]
          by_cases heq : setup.channel = ch
          · subst heq
            refine ⟨h.connection, h.channel, ?_, ?_, h.listening, ?_, fun other => ?_⟩
            · rw [addConsumer_self, connection_addConsumer]
              exact h.belongs
            · rw [addConsumer_self, isOpen_addConsumer]
              exact h.isOpen
            · rw [addConsumer_self, listening_addConsumer]
              exact h.channelListening
            · rw [addConsumer_self, count_addConsumer h.isOpen]
              show _ = if other ∈ bus.handlers then 1 else 0
              rw [← h.consumers other, herase other]
              simp only [and_true]
              omega
          · have hself : (bus.updateChannel setup.channel
                (.addConsumer setup.eventName)).channels ch = bus.channels ch :=
              addConsumer_other fun h => heq h.symm
            refine ⟨h.connection, h.channel, ?_, ?_, h.listening, ?_, fun other => ?_⟩
            · rw [hself]
              exact h.belongs
            · rw [hself]
              exact h.isOpen
            · rw [hself]
              exact h.channelListening
            · have hsame := herase other
              rw [if_neg fun hboth => heq hboth.2] at hsame
              rw [hself]
              show _ = if other ∈ bus.handlers then 1 else 0
              rw [← h.consumers other, hsame, Nat.add_zero]

/-! ## The other steps -/

/-- While the bus is connected no loop is in progress. -/
theorem up_of_connected (hstage : bus.Stage) (hclosed : bus.closed = false)
    (hconnected : bus.connected = true) : bus.loops = [] ∧ bus.reconnecting = false := by
  cases hstage with
  | idle _ hnot =>
      rw [hnot] at hconnected
      cases hconnected
  | connecting _ _ _ hnot =>
      rw [hnot] at hconnected
      cases hconnected
  | up _ hloops _ hreconnecting => exact ⟨hloops, hreconnecting⟩
  | reconnecting _ _ _ hnot =>
      rw [hnot] at hconnected
      cases hconnected
  | closed hwas =>
      rw [hclosed] at hwas
      cases hwas

theorem renew_notify {listening : Bool} (honly : bus.closed = false → Only bus.connections bus.held)
    (hlost : bus.closed = false → listening = true → bus.reconnecting = false →
      Only bus.connections none)
    (hattempt : bus.closed = false → ∀ loop ∈ bus.loops, bus.Attempt loop)
    (hserved : bus.closed = false → bus.connected = true →
      (listening = true ∧ bus.reconnecting = false) ∨ ∃ c ch, bus.ServedBy c ch) :
    (bus.notify listening).RenewInv := by
  unfold notify handleUnexpectedClose
  split_ifs with hnotified hreconnecting
  · refine ⟨honly, hattempt, fun hclosed hconnected => ?_⟩
    cases hserved hclosed hconnected with
    | inl hnot =>
        rw [hreconnecting] at hnot
        cases hnot.2
    | inr hserved => exact hserved
  · simp only [Bool.and_eq_true, Bool.not_eq_true'] at hnotified
    refine ⟨fun hclosed => ?_, fun hclosed loop hmem => ?_, fun _ hconnected => ?_⟩
    · apply only_of_none
      exact hlost hclosed hnotified.1 (Bool.eq_false_iff.mpr hreconnecting)
    · cases List.mem_append.mp hmem with
      | inl hold => exact hattempt hclosed loop hold
      | inr hnew =>
          rw [List.mem_singleton.mp hnew]
          trivial
    · cases hconnected
  · refine ⟨honly, hattempt, fun hclosed hconnected => ?_⟩
    cases hserved hclosed hconnected with
    | inl hlistening =>
        apply absurd _ hnotified
        rw [hlistening.1, hclosed]
        rfl
    | inr hserved => exact hserved

theorem renew_on {eventName : String} (hstage : bus.Stage) (h : bus.RenewInv) :
    (bus.on resilience eventName).2.RenewInv := by
  unfold on
  split_ifs with hclosed hmem
  · exact h
  · exact h
  · simp only
    split_ifs with hconnected
    · have hopen : bus.closed = false := Bool.eq_false_iff.mpr hclosed
      obtain ⟨hloops, -⟩ := up_of_connected hstage hopen hconnected
      refine ⟨h.only, fun _ loop hloop => ?_, fun _ _ => ?_⟩
      · have hloop' : loop ∈ bus.loops := hloop
        rw [hloops] at hloop'
        cases hloop'
      · obtain ⟨c, ch, hserved⟩ := h.served hopen hconnected
        exact ⟨c, ch, served_startSetup hserved hmem⟩
    · refine ⟨h.only, fun hopen loop hloop => ?_, fun _ hwas => absurd hwas hconnected⟩
      exact attempt_push (h.attempt hopen loop hloop)

theorem renew_settleSetup {j : Nat} {setup : Setup} {ok : Bool} (h : bus.RenewInv)
    (hsetup : bus.setups[j]? = some setup)
    (hfails : ok = false → (bus.channels setup.channel).isOpen = false) :
    (bus.settleSetup j setup ok).RenewInv := by
  have herase (other : Setup) (hmem : other ∈ bus.setups.eraseIdx j) :
      ∃ old ∈ bus.setups, old.channel = other.channel :=
    ⟨other, List.mem_of_mem_eraseIdx hmem, rfl⟩
  have hserved (hclosed : bus.closed = false) (hconnected : bus.connected = true) :
      ∃ c ch, (bus.settleSetup j setup ok).ServedBy c ch := by
    obtain ⟨c, ch, hserved⟩ := h.served hclosed hconnected
    exact ⟨c, ch, served_settleSetup hserved hsetup hfails⟩
  unfold settleSetup at hserved ⊢
  cases ok with
  | false =>
      refine ⟨h.only, fun hclosed loop hmem => ?_, hserved⟩
      exact attempt_frame (h.attempt hclosed loop hmem) (fun _ => rfl) (fun _ => rfl)
        (fun _ => rfl) (fun _ _ _ => rfl) herase
  | true =>
      simp only [if_true] at hserved ⊢
      cases hnext : setup.awaits.next with
      | some awaits =>
          simp only [hnext] at hserved
          refine ⟨h.only, fun hclosed loop hmem => ?_, hserved⟩
          refine attempt_frame (h.attempt hclosed loop hmem) (fun _ => rfl) (fun _ => rfl)
            (fun _ => rfl) (fun _ _ _ => rfl) fun other hother => ?_
          cases List.mem_or_eq_of_mem_set hother with
          | inl hold => exact ⟨other, hold, rfl⟩
          | inr heq =>
              rw [heq]
              exact ⟨setup, List.mem_of_getElem? hsetup, rfl⟩
      | none =>
          simp only [hnext] at hserved
          have hother {ch : Nat} (hne : ch ≠ setup.channel) :
              (bus.updateChannel setup.channel (.addConsumer setup.eventName)).channels ch =
                bus.channels ch := addConsumer_other hne
          refine ⟨h.only, fun hclosed loop hmem => ?_, hserved⟩
          refine @attempt_frame bus _ _ _ _ (h.attempt hclosed loop hmem) (fun _ => rfl)
            (fun ch => ?_) (fun ch => ?_) (fun ch hfree _ => ?_) herase
          · by_cases heq : ch = setup.channel
            · rw [heq, addConsumer_self, connection_addConsumer]
            · rw [hother heq]
          · by_cases heq : ch = setup.channel
            · rw [heq, addConsumer_self, listening_addConsumer]
            · rw [hother heq]
          · apply hother
            intro heq
            exact hfree setup (List.mem_of_getElem? hsetup) heq.symm

theorem renew_connectionCloses {connection : Nat} (hstage : bus.Stage) (hsound : bus.Sound)
    (h : bus.RenewInv) (hopen : bus.isOpen connection = true) :
    ((bus.closeConnection connection).notify (bus.heard connection)).RenewInv := by
  have hheld (hclosed : bus.closed = false) : bus.held = some connection :=
    h.only hclosed connection hopen
  apply renew_notify
  · exact fun hclosed => only_close (h.only hclosed) connection
  · intro hclosed _ _
    have honly := h.only hclosed
    rw [hheld hclosed] at honly
    exact only_closed honly
  · intro hclosed loop hmem
    refine @attempt_frame bus _ _ _ _ (h.attempt hclosed loop hmem) (fun c => ?_) (fun ch => ?_)
      (fun ch => ?_) (fun ch _ hwas => ?_) fun setup hsetup => ⟨setup, hsetup, rfl⟩
    · show (Function.update bus.connections connection _ c).listening = _
      by_cases heq : c = connection
      · rw [heq, Function.update_self]
        rfl
      · rw [Function.update_of_ne heq]
    · split_ifs <;> rfl
    · split_ifs <;> rfl
    · split_ifs at hwas ⊢
      · cases hwas
      · rfl
  · intro hclosed hconnected
    obtain ⟨c, ch, hserved⟩ := h.served hclosed hconnected
    have hc : bus.isOpen c = true := by
      have hof := hsound.isOpen ch hserved.isOpen
      rw [hserved.belongs] at hof
      exact hof
    have heq : connection = c :=
      Option.some.inj ((hheld hclosed).symm.trans (h.only hclosed c hc))
    refine .inl ⟨?_, (up_of_connected hstage hclosed hconnected).2⟩
    rw [heq, heard, hserved.listening]
    rfl

theorem renew_channelCloses {channel : Nat} (hstage : bus.Stage) (h : bus.RenewInv)
    (hquiet : (bus.channels channel).listening = true → bus.reconnecting = true) :
    ((bus.updateChannel channel .close).notify (bus.channels channel).listening).RenewInv := by
  have hother {ch : Nat} (hne : ch ≠ channel) :
      (bus.updateChannel channel .close).channels ch = bus.channels ch :=
    Function.update_of_ne hne ..
  apply @renew_notify (bus.updateChannel channel .close)
  · exact h.only
  · intro _ hlistening hreconnecting
    have hwas : bus.reconnecting = false := hreconnecting
    rw [hquiet hlistening] at hwas
    cases hwas
  · intro hclosed loop hmem
    refine @attempt_frame bus _ _ _ _ (h.attempt hclosed loop hmem) (fun _ => rfl) (fun ch => ?_)
      (fun ch => ?_) (fun ch _ hwas => ?_) fun setup hsetup => ⟨setup, hsetup, rfl⟩
    · by_cases heq : ch = channel
      · rw [heq, Function.update_self]
        rfl
      · rw [Function.update_of_ne heq]
    · by_cases heq : ch = channel
      · rw [heq, Function.update_self]
        rfl
      · rw [Function.update_of_ne heq]
    · by_cases heq : ch = channel
      · rw [heq, Function.update_self] at hwas
        cases hwas
      · rw [Function.update_of_ne heq]
  · intro hclosed hconnected
    obtain ⟨c, ch, hserved⟩ := h.served hclosed hconnected
    have hne : ch ≠ channel := by
      intro heq
      have hlistening := hserved.channelListening
      rw [heq] at hlistening
      have hreconnecting := hquiet hlistening
      rw [(up_of_connected hstage hclosed hconnected).2] at hreconnecting
      cases hreconnecting
    refine .inr ⟨c, ch, hserved.connection, hserved.channel, ?_, ?_, hserved.listening, ?_,
      fun eventName => ?_⟩
    · rw [hother hne]
      exact hserved.belongs
    · rw [hother hne]
      exact hserved.isOpen
    · rw [hother hne]
      exact hserved.channelListening
    · rw [hother hne]
      exact hserved.consumers eventName

theorem renewInv_init : RenewInv {} := by
  refine ⟨fun _ c hopen => ?_, fun _ loop hmem => ?_, fun _ h => ?_⟩
  · cases hopen
  · cases hmem
  · cases h

theorem renewInv_step {action : Action} (h : bus.RenewInv) (hstaged : bus.Staged)
    (hsound : bus.Sound) (hrenews : bus.Renews resilience action)
    (hstep : bus.step resilience action = some next) : next.RenewInv := by
  cases action with
  | connect =>
      cases hstep
      unfold connect
      split_ifs with hguard
      · exact h
      · have hconnected : bus.connected = false := by
          simp only [Bool.or_eq_true, not_or, Bool.not_eq_true] at hguard
          exact hguard.1
        refine ⟨fun hclosed => ?_, fun hclosed loop hmem => ?_, h.served⟩
        · have hnone : bus.loops = [] := by
            cases hrenews with
            | inl hwas =>
                rw [hconnected] at hwas
                cases hwas
            | inr hfree => exact hfree.2
          have honly := h.only hclosed
          simp only [held, hnone, hconnected, Bool.false_eq_true, if_false] at honly
          exact only_of_none honly _
        · cases List.mem_append.mp hmem with
          | inl hold => exact h.attempt hclosed loop hold
          | inr hnew =>
              rw [List.mem_singleton.mp hnew]
              trivial
  | on eventName =>
      cases hstep
      exact renew_on hstaged.stage h
  | close =>
      cases hstep
      unfold close
      split_ifs
      · exact h
      · exact renew_of_closed rfl
  | settle i answer =>
      obtain ⟨loop, hloop, rfl⟩ := Option.map_eq_some_iff.mp hstep
      exact renew_settle hstaged.stage hsound h hloop hrenews
  | settleSetup j ok =>
      obtain ⟨setup, hsetup, rfl⟩ := Option.map_eq_some_iff.mp hstep
      apply renew_settleSetup h hsetup
      intro hfails
      subst hfails
      exact hrenews setup hsetup
  | settleClose =>
      obtain ⟨closeStep, hclosing, rfl⟩ := Option.map_eq_some_iff.mp hstep
      have hclosed := hstaged.closing (Option.isSome_of_mem hclosing)
      cases closeStep with
      | channel channel => exact renew_of_closed hclosed
      | connection connection => exact renew_of_closed hclosed
  | connectionCloses connection =>
      simp only [step] at hstep
      split_ifs at hstep with hopen
      cases hstep
      exact renew_connectionCloses hstaged.stage hsound h hopen
  | channelCloses channel =>
      simp only [step] at hstep
      split_ifs at hstep
      cases hstep
      exact renew_channelCloses hstaged.stage h hrenews

/-! ## One live connection -/

/-- At most one connection is open, and while the bus is connected it is that of the bus, with
one consumer for each handler, or one that `on()` is setting up. -/
structure OneLive (bus : Bus) : Prop where
  one : ∀ c c', bus.isOpen c = true → bus.isOpen c' = true → c = c'
  live : bus.connected = true → ∃ c ch, bus.connection = some c ∧ bus.isOpen c = true ∧
    bus.channel = some ch ∧ (bus.channels ch).connection = c ∧
    (bus.channels ch).isOpen = true ∧ ∀ eventName ∈ bus.handlers,
      (bus.channels ch).consumers.count eventName + pending bus.setups eventName ch = 1

theorem alone_of_renews {action : Action} (h : bus.Renews resilience action) :
    bus.Alone action := by
  cases action with
  | connect => exact h
  | _ => trivial

/-- Of every state before `close()`. -/
theorem oneLive_of_run {resilience : Resilience} {bus : Bus}
    (h : Machine.Run (step resilience) (Renews resilience) {} bus)
    (hclosed : bus.closed = false) : bus.OneLive := by
  have hinv : (bus.Staged ∧ bus.Sound) ∧ bus.RenewInv := by
    apply h.inv (I := fun bus => (bus.Staged ∧ bus.Sound) ∧ bus.RenewInv)
    · exact ⟨⟨staged_init, sound_init⟩, renewInv_init⟩
    · intro bus action next hinv hrenews hstep
      obtain ⟨⟨hstaged, hsound⟩, hrenew⟩ := hinv
      exact ⟨⟨staged_step hstaged (alone_of_renews hrenews) hstep, sound_step hsound hstep⟩,
        renewInv_step hrenew hstaged hsound hrenews hstep⟩
  obtain ⟨⟨-, hsound⟩, hrenew⟩ := hinv
  have hone (c c' : Nat) (hc : bus.isOpen c = true) (hc' : bus.isOpen c' = true) : c = c' :=
    Option.some.inj ((hrenew.only hclosed c hc).symm.trans (hrenew.only hclosed c' hc'))
  refine ⟨hone, fun hconnected => ?_⟩
  obtain ⟨c, ch, hserved⟩ := hrenew.served hclosed hconnected
  have hopen : bus.isOpen c = true := by
    have hof := hsound.isOpen ch hserved.isOpen
    rw [hserved.belongs] at hof
    exact hof
  refine ⟨c, ch, hserved.connection, hopen, hserved.channel, hserved.belongs, hserved.isOpen,
    fun eventName hmem => ?_⟩
  have hcount := hserved.consumers eventName
  rw [if_pos hmem] at hcount
  exact hcount

namespace Sample

/-- The first attempt of `connect()` fails with its connection open and the second succeeds;
the connection closes, that of the first reconnect attempt closes too, and the next one
succeeds; and another handler is registered. -/
theorem oneLive_of_run_renewed :
    ∃ bus, Machine.Run (step {}) (Renews {}) {} bus ∧ bus.closed = false ∧
      bus.connected = true ∧ bus.connectionsMade = 4 ∧ bus.OneLive := by
  have hplay : (Machine.playMeeting (step {}) (Renews {})
      ([.on "OrderPlaced", .connect, .settle 0 .resolved, .settle 0 (.rejected false)] ++
        List.replicate 9 (.settle 0 .resolved) ++ [.connectionCloses 1, .settle 0 .resolved,
          .connectionCloses 2, .settle 0 (.rejected false)] ++
        List.replicate 8 (.settle 0 .resolved) ++
        [.on "OrderShipped", .settleSetup 0 true]) {}).map
      (fun bus => (bus.closed, bus.connected, bus.connectionsMade)) = some (false, true, 4) := by
    decide +kernel
  obtain ⟨bus, hbus, hstate⟩ := Option.map_eq_some_iff.mp hplay
  simp only [Prod.mk.injEq] at hstate
  obtain ⟨hclosed, hconnected, hmade⟩ := hstate
  have hrun := Machine.run_of_playMeeting hbus
  exact ⟨bus, hrun, hclosed, hconnected, hmade, oneLive_of_run hrun hclosed⟩

/-- A channel closes alone.  The reconnection leaves its connection open. -/
theorem oneLive_channelCloses :
    ¬ ∀ (resilience : Resilience) (bus : Bus), Machine.Reaches (step resilience) {} bus →
      bus.closed = false → bus.loops = [] → bus.setups = [] → bus.OneLive := by
  intro hall
  have hplay : (Machine.play (step {})
      ([.connect] ++ List.replicate 4 (.settle 0 .resolved) ++ [.channelCloses 0] ++
        List.replicate 4 (.settle 0 .resolved)) {}).map
        (fun bus => (bus.closed, bus.loops, bus.setups, bus.isOpen 0, bus.isOpen 1)) =
      some (false, [], [], true, true) := by decide +kernel
  obtain ⟨bus, hbus, hstate⟩ := Option.map_eq_some_iff.mp hplay
  simp only [Prod.mk.injEq] at hstate
  obtain ⟨hclosed, hloops, hsetups, hfirst, hsecond⟩ := hstate
  have hrun := Machine.run_of_play (C := fun _ _ => True) (fun _ _ _ => trivial) hbus
  have heq := (hall {} bus hrun hclosed hloops hsetups).one 0 1 hfirst hsecond
  exact absurd heq (by decide)

end Sample

end Bus

end Noddde.Brokers.RabbitMqEventBus
