import Noddde.Brokers.RabbitMqConnection
/-!
# The loops of the RabbitMQ bus

What holds of the connections and channels at all times, and which loops can be in
progress, as long as calls of `connect()` do not overlap.
-/

namespace Noddde.Brokers.RabbitMqEventBus

/-- What holds of the tables, and of what points into them. -/
structure Tables (connections : Nat → ConnectionObject) (channels : Nat → ChannelObject)
    (channelsMade : Nat) (channel : Option Nat) (setups : List Setup)
    (handlers : List String) : Prop where
  isOpen : ∀ ch, (channels ch).isOpen = true →
    (connections (channels ch).connection).isOpen = true
  consumers : ∀ ch, (channels ch).isOpen = false → (channels ch).consumers = []
  fresh : ∀ ch, channelsMade ≤ ch → (channels ch).isOpen = false
  channel : ∀ ch, channel = some ch → ch < channelsMade
  setups : ∀ setup ∈ setups, setup.channel < channelsMade
  handlers : handlers.Nodup

namespace Tables

variable {connections : Nat → ConnectionObject} {channels : Nat → ChannelObject}
  {channelsMade : Nat} {channel : Option Nat} {setups : List Setup} {handlers : List String}

theorem listen (h : Tables connections channels channelsMade channel setups handlers)
    (connection : Nat) :
    Tables (Function.update connections connection (connections connection).listen) channels
      channelsMade channel setups handlers := by
  refine ⟨fun ch hopen => ?_, h.consumers, h.fresh, h.channel, h.setups, h.handlers⟩
  have hold := h.isOpen ch hopen
  by_cases heq : (channels ch).connection = connection
  · rw [heq] at hold
    rw [heq, Function.update_self]
    exact hold
  · rw [Function.update_of_ne heq]
    exact hold

theorem updateChannel (h : Tables connections channels channelsMade channel setups handlers)
    {ch : Nat} {object : ChannelObject}
    (hconnection : object.connection = (channels ch).connection)
    (hopen : object.isOpen = true → (channels ch).isOpen = true)
    (hconsumers : object.isOpen = false → object.consumers = []) :
    Tables connections (Function.update channels ch object) channelsMade channel setups
      handlers := by
  refine ⟨fun other hother => ?_, fun other hother => ?_, fun other hother => ?_, h.channel,
    h.setups, h.handlers⟩
  · by_cases heq : other = ch
    · subst heq
      rw [Function.update_self] at hother ⊢
      rw [hconnection]
      exact h.isOpen other (hopen hother)
    · rw [Function.update_of_ne heq] at hother ⊢
      exact h.isOpen other hother
  · by_cases heq : other = ch
    · subst heq
      rw [Function.update_self] at hother ⊢
      exact hconsumers hother
    · rw [Function.update_of_ne heq] at hother ⊢
      exact h.consumers other hother
  · by_cases heq : other = ch
    · subst heq
      rw [Function.update_self]
      have hclosed := h.fresh other hother
      apply Bool.eq_false_iff.mpr
      intro hobject
      rw [hopen hobject] at hclosed
      cases hclosed
    · rw [Function.update_of_ne heq]
      exact h.fresh other hother

theorem closeChannel (h : Tables connections channels channelsMade channel setups handlers)
    (ch : Nat) :
    Tables connections (Function.update channels ch (channels ch).close) channelsMade channel
      setups handlers := by
  apply h.updateChannel
  · rfl
  · intro hopen
    cases hopen
  · intro _
    rfl

theorem addConsumer (h : Tables connections channels channelsMade channel setups handlers)
    (ch : Nat) (eventName : String) :
    Tables connections (Function.update channels ch ((channels ch).addConsumer eventName))
      channelsMade channel setups handlers := by
  cases hopen : (channels ch).isOpen with
  | true =>
      have hobject : (channels ch).addConsumer eventName =
          { channels ch with consumers := eventName :: (channels ch).consumers } := by
        rw [ChannelObject.addConsumer, if_pos hopen]
      rw [hobject]
      apply h.updateChannel
      · rfl
      · exact fun _ => hopen
      · intro hclosed
        have hfalse : (channels ch).isOpen = false := hclosed
        rw [hopen] at hfalse
        cases hfalse
  | false =>
      have hobject : (channels ch).addConsumer eventName = channels ch := by
        rw [ChannelObject.addConsumer, hopen]
        rfl
      rw [hobject, Function.update_eq_self]
      exact h

theorem listenChannel (h : Tables connections channels channelsMade channel setups handlers)
    (ch : Nat) :
    Tables connections (Function.update channels ch (channels ch).listen) channelsMade channel
      setups handlers := by
  apply h.updateChannel
  · rfl
  · exact fun hopen => hopen
  · exact fun hclosed => h.consumers ch hclosed

theorem closeConnection (h : Tables connections channels channelsMade channel setups handlers)
    (connection : Nat) :
    Tables (Function.update connections connection (connections connection).close)
      (fun ch => if (channels ch).connection = connection then (channels ch).close
        else channels ch) channelsMade channel setups handlers := by
  refine ⟨fun ch hopen => ?_, fun ch hclosed => ?_, fun ch hmade => ?_, h.channel, h.setups,
    h.handlers⟩
  · by_cases heq : (channels ch).connection = connection
    · rw [if_pos heq] at hopen
      cases hopen
    · rw [if_neg heq] at hopen ⊢
      rw [Function.update_of_ne heq]
      exact h.isOpen ch hopen
  · by_cases heq : (channels ch).connection = connection
    · rw [if_pos heq]
      rfl
    · rw [if_neg heq] at hclosed ⊢
      exact h.consumers ch hclosed
  · split_ifs
    · rfl
    · exact h.fresh ch hmade

theorem addConnection (h : Tables connections channels channelsMade channel setups handlers)
    (made : Nat) :
    Tables (Function.update connections made { isOpen := true }) channels channelsMade channel
      setups handlers := by
  refine ⟨fun ch hopen => ?_, h.consumers, h.fresh, h.channel, h.setups, h.handlers⟩
  have hold := h.isOpen ch hopen
  by_cases heq : (channels ch).connection = made
  · rw [heq, Function.update_self]
  · rw [Function.update_of_ne heq]
    exact hold

theorem addChannel (h : Tables connections channels channelsMade channel setups handlers)
    (connection : Nat) :
    Tables connections (Function.update channels channelsMade
        { connection, isOpen := (connections connection).isOpen }) (channelsMade + 1)
      (some channelsMade) setups handlers := by
  refine ⟨fun ch hopen => ?_, fun ch hclosed => ?_, fun ch hmade => ?_, fun ch hch => ?_,
    fun setup hmem => ?_, h.handlers⟩
  · by_cases heq : ch = channelsMade
    · subst heq
      rw [Function.update_self] at hopen ⊢
      exact hopen
    · rw [Function.update_of_ne heq] at hopen ⊢
      exact h.isOpen ch hopen
  · by_cases heq : ch = channelsMade
    · subst heq
      rw [Function.update_self]
    · rw [Function.update_of_ne heq] at hclosed ⊢
      exact h.consumers ch hclosed
  · have hne : ch ≠ channelsMade := by omega
    rw [Function.update_of_ne hne]
    exact h.fresh ch (by omega)
  · cases hch
    exact Nat.lt_succ_self _
  · have hlt := h.setups setup hmem
    omega

theorem dropChannel (h : Tables connections channels channelsMade channel setups handlers) :
    Tables connections channels channelsMade none setups handlers := by
  refine ⟨h.isOpen, h.consumers, h.fresh, fun ch hch => ?_, h.setups, h.handlers⟩
  cases hch

theorem mapSetups (h : Tables connections channels channelsMade channel setups handlers)
    {setups' : List Setup}
    (hsetups : ∀ setup ∈ setups', ∃ old ∈ setups, old.channel = setup.channel) :
    Tables connections channels channelsMade channel setups' handlers := by
  refine ⟨h.isOpen, h.consumers, h.fresh, h.channel, fun setup hmem => ?_, h.handlers⟩
  obtain ⟨old, hold, heq⟩ := hsetups setup hmem
  rw [← heq]
  exact h.setups old hold

theorem pushHandler (h : Tables connections channels channelsMade channel setups handlers)
    {eventName : String} (hnew : eventName ∉ handlers) :
    Tables connections channels channelsMade channel setups (handlers ++ [eventName]) := by
  refine ⟨h.isOpen, h.consumers, h.fresh, h.channel, h.setups, ?_⟩
  have hnodup : (eventName :: handlers).Nodup := List.nodup_cons.mpr ⟨hnew, h.handlers⟩
  exact (List.perm_append_singleton eventName handlers).nodup_iff.mpr hnodup

theorem clearHandlers (h : Tables connections channels channelsMade channel setups handlers) :
    Tables connections channels channelsMade channel setups [] :=
  ⟨h.isOpen, h.consumers, h.fresh, h.channel, h.setups, List.nodup_nil⟩

end Tables

namespace Bus

variable {resilience : Resilience} {bus next : Bus}

abbrev Sound (bus : Bus) : Prop :=
  Tables bus.connections bus.channels bus.channelsMade bus.channel bus.setups bus.handlers

theorem sound_init : Sound {} := by
  refine ⟨fun ch h => ?_, fun _ _ => rfl, fun _ _ => rfl, fun ch h => ?_, fun setup h => ?_,
    List.nodup_nil⟩
  · cases h
  · cases h
  · cases h

theorem sound_complete {i connection channel : Nat} {kind : LoopKind} (h : bus.Sound) :
    (bus.complete i connection channel kind).Sound := by
  cases kind with
  | connectWithRetry _ => exact (h.listen connection).listenChannel channel
  | reconnectPersistently => exact h

theorem sound_setUpFrom {i connection channel index : Nat} {kind : LoopKind} (h : bus.Sound) :
    (bus.setUpFrom resilience i kind connection channel index).Sound := by
  unfold setUpFrom
  cases bus.nextSetup resilience index with
  | some setup => exact h
  | none => exact sound_complete h

theorem sound_afterCleanup {i attempt : Nat} {mismatch : Bool} (h : bus.Sound) :
    (bus.afterCleanup resilience i attempt mismatch).Sound := by
  have hdrop := h.dropChannel
  unfold afterCleanup
  simp only
  split_ifs
  · exact hdrop
  · exact hdrop
  · exact hdrop

theorem sound_attemptFails {i : Nat} {connection : Option Nat} {mismatch : Bool}
    {kind : LoopKind} (h : bus.Sound) :
    (bus.attemptFails resilience i connection mismatch kind).Sound := by
  cases kind with
  | connectWithRetry attempt =>
      cases connection with
      | some c => exact h
      | none => exact sound_afterCleanup h
  | reconnectPersistently =>
      show Sound (if bus.closed then _ else _)
      split_ifs
      · exact h
      · exact h

theorem sound_resolve {i : Nat} {kind : LoopKind} {phase : LoopPhase} (h : bus.Sound) :
    (bus.resolve resilience i kind phase).Sound := by
  cases phase with
  | connect =>
      have hmade := h.addConnection bus.connectionsMade
      cases kind with
      | connectWithRetry attempt => exact hmade
      | reconnectPersistently => exact hmade.listen bus.connectionsMade
  | createConfirmChannel connection => exact h.addChannel connection
  | prefetch connection channel => exact h
  | assertExchange connection channel =>
      apply sound_setUpFrom
      cases kind with
      | connectWithRetry attempt => exact h
      | reconnectPersistently => exact h.listenChannel channel
  | setupConsumer connection channel index setup =>
      cases hnext : setup.awaits.next with
      | some awaits =>
          simp only [resolve, hnext]
          exact h
      | none =>
          simp only [resolve, hnext]
          apply sound_setUpFrom
          exact h.addConsumer setup.channel setup.eventName
  | close connection mismatch =>
      cases kind with
      | connectWithRetry attempt => exact sound_afterCleanup (h.closeConnection connection)
      | reconnectPersistently => exact h
  | backoff =>
      cases kind with
      | connectWithRetry attempt => exact h
      | reconnectPersistently =>
          show Sound (if bus.closed then _ else _)
          split_ifs
          · exact h
          · exact h

theorem sound_settle {i : Nat} {loop : Loop} {answer : Answer} (h : bus.Sound) :
    (bus.settle resilience i loop answer).Sound := by
  cases answer with
  | resolved => exact sound_resolve h
  | rejected mismatch =>
      unfold settle reject
      cases loop.phase with
      | close connection mismatch => exact sound_resolve h
      | backoff => exact sound_resolve h
      | _ => exact sound_attemptFails h

theorem sound_startSetup {eventName : String} (h : bus.Sound) :
    (bus.startSetup resilience eventName).Sound := by
  refine ⟨h.isOpen, h.consumers, h.fresh, h.channel, fun setup hsetup => ?_, h.handlers⟩
  cases List.mem_append.mp hsetup with
  | inl hold => exact h.setups setup hold
  | inr hnew =>
      obtain ⟨channel, hchannel, rfl⟩ := Option.map_eq_some_iff.mp (Option.mem_toList.mp hnew)
      exact h.channel channel hchannel

theorem sound_on {eventName : String} (h : bus.Sound) :
    (bus.on resilience eventName).2.Sound := by
  unfold on
  split_ifs with hclosed hmem
  · exact h
  · exact h
  · have hpush := h.pushHandler hmem
    simp only
    split_ifs
    · apply sound_startSetup
      exact hpush
    · exact hpush

theorem sound_settleSetup {j : Nat} {setup : Setup} {ok : Bool} (h : bus.Sound)
    (hsetup : bus.setups[j]? = some setup) : (bus.settleSetup j setup ok).Sound := by
  have herase (setup : Setup) (hmem : setup ∈ bus.setups.eraseIdx j) :
      ∃ old ∈ bus.setups, old.channel = setup.channel :=
    ⟨setup, List.mem_of_mem_eraseIdx hmem, rfl⟩
  unfold settleSetup
  split_ifs
  · cases setup.awaits.next with
    | some awaits =>
        apply h.mapSetups
        intro other hother
        cases List.mem_or_eq_of_mem_set hother with
        | inl hold => exact ⟨other, hold, rfl⟩
        | inr heq =>
            rw [heq]
            exact ⟨setup, List.mem_of_getElem? hsetup, rfl⟩
    | none => exact (h.addConsumer setup.channel setup.eventName).mapSetups herase
  · exact h.mapSetups herase

theorem sound_notify {listening : Bool} (h : bus.Sound) : (bus.notify listening).Sound := by
  unfold notify handleUnexpectedClose
  split_ifs
  · exact h
  · exact h
  · exact h

theorem sound_close (h : bus.Sound) : bus.close.Sound := by
  unfold close
  split_ifs
  · exact h
  · exact h.clearHandlers

theorem sound_step {action : Action} (h : bus.Sound)
    (hstep : bus.step resilience action = some next) : next.Sound := by
  cases action with
  | connect =>
      cases hstep
      unfold connect
      split_ifs
      · exact h
      · exact h
  | on eventName =>
      cases hstep
      exact sound_on h
  | close =>
      cases hstep
      exact sound_close h
  | settle i answer =>
      obtain ⟨loop, hloop, rfl⟩ := Option.map_eq_some_iff.mp hstep
      exact sound_settle h
  | settleSetup j ok =>
      obtain ⟨setup, hsetup, rfl⟩ := Option.map_eq_some_iff.mp hstep
      exact sound_settleSetup h hsetup
  | settleClose =>
      obtain ⟨closeStep, hclosing, rfl⟩ := Option.map_eq_some_iff.mp hstep
      cases closeStep with
      | channel channel => exact (h.closeChannel channel).dropChannel
      | connection connection => exact h.closeConnection connection
  | connectionCloses connection =>
      simp only [step] at hstep
      split_ifs at hstep
      cases hstep
      exact sound_notify (h.closeConnection connection)
  | channelCloses channel =>
      simp only [step] at hstep
      split_ifs at hstep
      cases hstep
      exact sound_notify (h.closeChannel channel)

end Bus

/-! ## The loops in progress -/

def LoopPhase.connection : LoopPhase → Option Nat
  | .connect | .backoff => none
  | .createConfirmChannel connection | .prefetch connection _ | .assertExchange connection _
  | .setupConsumer connection _ _ _ | .close connection _ => some connection

/-- Nothing listens: no attempt has succeeded so far. -/
structure Quiet (connections : Nat → ConnectionObject) (channels : Nat → ChannelObject) :
    Prop where
  connections : ∀ c, (connections c).listening = false
  channels : ∀ ch, (channels ch).listening = false

namespace Quiet

variable {connections : Nat → ConnectionObject} {channels : Nat → ChannelObject}

theorem updateConnection (h : Quiet connections channels) {c : Nat} {object : ConnectionObject}
    (hobject : object.listening = false) :
    Quiet (Function.update connections c object) channels := by
  refine ⟨fun other => ?_, h.channels⟩
  by_cases heq : other = c
  · rw [heq, Function.update_self]
    exact hobject
  · rw [Function.update_of_ne heq]
    exact h.connections other

theorem updateChannel (h : Quiet connections channels) {ch : Nat} {object : ChannelObject}
    (hobject : object.listening = false) :
    Quiet connections (Function.update channels ch object) := by
  refine ⟨h.connections, fun other => ?_⟩
  by_cases heq : other = ch
  · rw [heq, Function.update_self]
    exact hobject
  · rw [Function.update_of_ne heq]
    exact h.channels other

theorem addConsumer (h : Quiet connections channels) (ch : Nat) (eventName : String) :
    Quiet connections
      (Function.update channels ch ((channels ch).addConsumer eventName)) := by
  apply h.updateChannel
  unfold ChannelObject.addConsumer
  split_ifs
  · exact h.channels ch
  · exact h.channels ch

theorem closeConnection (h : Quiet connections channels) (c : Nat) :
    Quiet (Function.update connections c (connections c).close)
      (fun ch => if (channels ch).connection = c then (channels ch).close else channels ch) := by
  have hconnections := h.updateConnection (c := c)
    (show (connections c).close.listening = false from h.connections c)
  refine ⟨hconnections.connections, fun ch => ?_⟩
  show (if _ then _ else _ : ChannelObject).listening = false
  split_ifs
  · exact h.channels ch
  · exact h.channels ch

end Quiet

namespace Bus

variable {resilience : Resilience} {bus next : Bus}

/-- Which loops can be in progress, if calls of `connect()` do not overlap with any. -/
inductive Stage (bus : Bus) : Prop
  | idle (hloops : bus.loops = []) (hconnected : bus.connected = false)
      (hreconnecting : bus.reconnecting = false) (hconnection : bus.connection = none)
      (hquiet : Quiet bus.connections bus.channels)
  | connecting (attempt : Nat) (phase : LoopPhase)
      (hloops : bus.loops = [⟨.connectWithRetry attempt, phase⟩])
      (hconnected : bus.connected = false) (hreconnecting : bus.reconnecting = false)
      (hconnection : bus.connection = phase.connection ∨
        bus.closed = true ∧ bus.connection = none)
      (hquiet : Quiet bus.connections bus.channels)
  | up (hclosed : bus.closed = false) (hloops : bus.loops = [])
      (hconnected : bus.connected = true) (hreconnecting : bus.reconnecting = false)
  | reconnecting (phase : LoopPhase) (hclosed : bus.closed = false)
      (hloops : bus.loops = [⟨.reconnectPersistently, phase⟩])
      (hconnected : bus.connected = false) (hreconnecting : bus.reconnecting = true)
  | closed (hclosed : bus.closed = true)
      (hloops : ∀ loop ∈ bus.loops, loop.kind = .reconnectPersistently)

/-- `connect()` is called while connected, where it does nothing, or before `close()` and with
no loop in progress. -/
def Alone (bus : Bus) : Action → Prop
  | .connect => bus.connected = true ∨ bus.closed = false ∧ bus.loops = []
  | _ => True

/-- A step of `_reconnectPersistently`, from a state with the given fields. -/
inductive Reconnects (loops : List Loop) (connected reconnecting closed : Bool) (i : Nat)
    (next : Bus) : Prop
  | goesOn (phase : LoopPhase) (hloops : next.loops = loops.set i ⟨.reconnectPersistently, phase⟩)
      (hconnected : next.connected = connected) (hreconnecting : next.reconnecting = reconnecting)
      (hclosed : next.closed = closed)
  | ends (hloops : next.loops = loops.eraseIdx i) (hreconnecting : next.reconnecting = false)
      (hclosed : next.closed = closed) (hwhy : next.connected = true ∨ closed = true)

abbrev ReconnectsAt (bus : Bus) (i : Nat) (next : Bus) : Prop :=
  Reconnects bus.loops bus.connected bus.reconnecting bus.closed i next

theorem reconnects_setUpFrom {i connection channel index : Nat} :
    bus.ReconnectsAt i
      (bus.setUpFrom resilience i .reconnectPersistently connection channel index) := by
  unfold setUpFrom
  cases bus.nextSetup resilience index with
  | some setup => exact .goesOn _ rfl rfl rfl rfl
  | none => exact .ends rfl rfl rfl (.inl rfl)

/-- The end of an attempt or of a backoff, on a bus that may be closed. -/
theorem reconnects_unless_closed {i : Nat} {phase : LoopPhase} :
    bus.ReconnectsAt i (if bus.closed then bus.stopReconnecting i
      else bus.await i ⟨.reconnectPersistently, phase⟩) := by
  split_ifs with hclosed
  · exact .ends rfl rfl rfl (.inr hclosed)
  · exact .goesOn phase rfl rfl rfl rfl

theorem reconnects_resolve {i : Nat} {phase : LoopPhase}
    (hloop : bus.loops[i]? = some ⟨.reconnectPersistently, phase⟩) :
    bus.ReconnectsAt i (bus.resolve resilience i .reconnectPersistently phase) := by
  cases phase with
  | connect => exact .goesOn _ rfl rfl rfl rfl
  | createConfirmChannel connection => exact .goesOn _ rfl rfl rfl rfl
  | prefetch connection channel => exact .goesOn _ rfl rfl rfl rfl
  | assertExchange connection channel =>
      have hsetUp : (bus.updateChannel channel .listen).ReconnectsAt i
          ((bus.updateChannel channel .listen).setUpFrom resilience i .reconnectPersistently
            connection channel 0) := reconnects_setUpFrom
      exact hsetUp
  | setupConsumer connection channel index setup =>
      cases hnext : setup.awaits.next with
      | some awaits =>
          simp only [resolve, hnext]
          exact .goesOn _ rfl rfl rfl rfl
      | none =>
          have hsetUp : ReconnectsAt
              (bus.updateChannel setup.channel (.addConsumer setup.eventName)) i
              ((bus.updateChannel setup.channel (.addConsumer setup.eventName)).setUpFrom
                resilience i .reconnectPersistently connection channel (index + 1)) :=
            reconnects_setUpFrom
          simp only [resolve, hnext]
          exact hsetUp
  | close connection mismatch =>
      have hset : bus.loops.set i ⟨.reconnectPersistently, .close connection mismatch⟩ =
          bus.loops := by
        obtain ⟨hlt, hget⟩ := List.getElem?_eq_some_iff.mp hloop
        rw [← hget]
        exact List.set_getElem_self hlt
      exact .goesOn _ hset.symm rfl rfl rfl
  | backoff => exact reconnects_unless_closed

theorem reconnects_settle {i : Nat} {phase : LoopPhase} {answer : Answer}
    (hloop : bus.loops[i]? = some ⟨.reconnectPersistently, phase⟩) :
    bus.ReconnectsAt i (bus.settle resilience i ⟨.reconnectPersistently, phase⟩ answer) := by
  cases answer with
  | resolved => exact reconnects_resolve hloop
  | rejected mismatch =>
      cases phase with
      | close connection mismatch => exact @reconnects_resolve resilience bus i _ hloop
      | backoff => exact @reconnects_resolve resilience bus i _ hloop
      | _ => exact reconnects_unless_closed

/-! ## The stages -/

theorem only_loop {loops : List Loop} {loop other : Loop} {i : Nat} (hloops : loops = [loop])
    (hother : loops[i]? = some other) : i = 0 ∧ other = loop := by
  subst hloops
  cases i with
  | zero => exact ⟨rfl, (Option.some.inj hother).symm⟩
  | succ i => cases hother

theorem stage_reconnects {i : Nat} {phase : LoopPhase} (h : bus.Stage)
    (hloop : bus.loops[i]? = some ⟨.reconnectPersistently, phase⟩)
    (hstep : bus.ReconnectsAt i next) : next.Stage := by
  cases h with
  | idle hloops =>
      rw [hloops] at hloop
      cases hloop
  | connecting attempt other hloops =>
      have heq := (only_loop hloops hloop).2
      cases heq
  | up _ hloops =>
      rw [hloops] at hloop
      cases hloop
  | reconnecting other hclosed hloops hconnected hreconnecting =>
      have hzero := (only_loop hloops hloop).1
      subst hzero
      cases hstep with
      | goesOn phase hset hconnected' hreconnecting' hclosed' =>
          rw [hloops] at hset
          exact .reconnecting phase (hclosed'.trans hclosed) hset (hconnected'.trans hconnected)
            (hreconnecting'.trans hreconnecting)
      | ends herase hreconnecting' hclosed' hwhy =>
          rw [hloops] at herase
          have hup : next.connected = true := by
            cases hwhy with
            | inl hup => exact hup
            | inr hwas =>
                rw [hclosed] at hwas
                cases hwas
          exact .up (hclosed'.trans hclosed) herase hup hreconnecting'
  | closed hclosed hloops =>
      cases hstep with
      | goesOn phase hset _ _ hclosed' =>
          refine .closed (hclosed'.trans hclosed) fun loop hmem => ?_
          rw [hset] at hmem
          cases List.mem_or_eq_of_mem_set hmem with
          | inl hold => exact hloops loop hold
          | inr heq => rw [heq]
      | ends herase _ hclosed' _ =>
          refine .closed (hclosed'.trans hclosed) fun loop hmem => ?_
          rw [herase] at hmem
          exact hloops loop (List.mem_of_mem_eraseIdx hmem)

/-- What is known of a bus at a step of `_connectWithRetry`, the only loop. -/
structure Connecting (bus : Bus) : Prop where
  loops : ∃ loop, bus.loops = [loop]
  connected : bus.connected = false
  reconnecting : bus.reconnecting = false
  quiet : Quiet bus.connections bus.channels

theorem stage_await {attempt : Nat} {phase : LoopPhase} (h : bus.Connecting)
    (hconnection : bus.connection = phase.connection ∨
      bus.closed = true ∧ bus.connection = none) :
    (bus.await 0 ⟨.connectWithRetry attempt, phase⟩).Stage := by
  obtain ⟨loop, hloops⟩ := h.loops
  have hset : bus.loops.set 0 ⟨.connectWithRetry attempt, phase⟩ =
      [⟨.connectWithRetry attempt, phase⟩] := by
    rw [hloops]
    rfl
  exact .connecting attempt phase hset h.connected h.reconnecting hconnection h.quiet

theorem stage_afterCleanup {attempt : Nat} {mismatch : Bool} (h : bus.Connecting) :
    (bus.afterCleanup resilience 0 attempt mismatch).Stage := by
  have hcleaned : ({ bus with connection := none, channel := none } : Bus).Connecting :=
    ⟨h.loops, h.connected, h.reconnecting, h.quiet⟩
  have hidle : ({ bus with connection := none, channel := none } : Bus).endLoop 0 |>.Stage := by
    obtain ⟨loop, hloops⟩ := h.loops
    have herase : bus.loops.eraseIdx 0 = [] := by
      rw [hloops]
      rfl
    exact .idle herase h.connected h.reconnecting rfl h.quiet
  unfold afterCleanup
  simp only
  split_ifs
  · exact hidle
  · exact stage_await hcleaned (.inl rfl)
  · exact hidle

theorem stage_complete {attempt connection channel : Nat} (h : bus.Connecting) :
    (bus.complete 0 connection channel (.connectWithRetry attempt)).Stage := by
  obtain ⟨loop, hloops⟩ := h.loops
  have herase : bus.loops.eraseIdx 0 = [] := by
    rw [hloops]
    rfl
  cases hclosed : bus.closed with
  | false => exact .up hclosed herase rfl h.reconnecting
  | true =>
      refine .closed hclosed fun loop hmem => ?_
      have hmem' : loop ∈ bus.loops.eraseIdx 0 := hmem
      rw [herase] at hmem'
      cases hmem'

theorem stage_setUpFrom {attempt connection channel index : Nat} (h : bus.Connecting)
    (hconnection : bus.connection = some connection ∨
      bus.closed = true ∧ bus.connection = none) :
    (bus.setUpFrom resilience 0 (.connectWithRetry attempt) connection channel index).Stage := by
  unfold setUpFrom
  cases bus.nextSetup resilience index with
  | some setup => exact stage_await h hconnection
  | none => exact stage_complete h

theorem stage_resolve {attempt : Nat} {phase : LoopPhase} (h : bus.Connecting)
    (hconnection : bus.connection = phase.connection ∨
      bus.closed = true ∧ bus.connection = none) :
    (bus.resolve resilience 0 (.connectWithRetry attempt) phase).Stage := by
  cases phase with
  | connect =>
      have hadded : bus.addConnection.Connecting :=
        ⟨h.loops, h.connected, h.reconnecting, h.quiet.updateConnection rfl⟩
      exact stage_await hadded (.inl rfl)
  | createConfirmChannel connection =>
      have hadded : (bus.addChannel connection).Connecting :=
        ⟨h.loops, h.connected, h.reconnecting, h.quiet.updateChannel rfl⟩
      exact stage_await hadded hconnection
  | prefetch connection channel => exact stage_await h hconnection
  | assertExchange connection channel => exact stage_setUpFrom h hconnection
  | setupConsumer connection channel index setup =>
      cases hnext : setup.awaits.next with
      | some awaits =>
          simp only [resolve, hnext]
          exact stage_await h hconnection
      | none =>
          simp only [resolve, hnext]
          have hadded : (bus.updateChannel setup.channel
              (.addConsumer setup.eventName)).Connecting :=
            ⟨h.loops, h.connected, h.reconnecting,
              h.quiet.addConsumer setup.channel setup.eventName⟩
          exact stage_setUpFrom hadded hconnection
  | close connection mismatch =>
      have hclosed : (bus.closeConnection connection).Connecting :=
        ⟨h.loops, h.connected, h.reconnecting, h.quiet.closeConnection connection⟩
      exact stage_afterCleanup hclosed
  | backoff => exact stage_await h hconnection

theorem stage_reject {attempt : Nat} {phase : LoopPhase} {mismatch : Bool}
    (h : bus.Connecting) (hconnection : bus.connection = phase.connection ∨
      bus.closed = true ∧ bus.connection = none) :
    (bus.reject resilience 0 (.connectWithRetry attempt) mismatch phase).Stage := by
  cases phase with
  | connect =>
      show (bus.afterCleanup resilience 0 attempt false).Stage
      exact stage_afterCleanup h
  | close connection mismatch => exact @stage_resolve resilience bus _ _ h hconnection
  | backoff => exact @stage_resolve resilience bus _ _ h hconnection
  | createConfirmChannel connection => exact stage_await h hconnection
  | prefetch connection channel => exact stage_await h hconnection
  | assertExchange connection channel => exact stage_await h hconnection
  | setupConsumer connection channel index setup => exact stage_await h hconnection

theorem stage_settle {i : Nat} {loop : Loop} {answer : Answer} (h : bus.Stage)
    (hloop : bus.loops[i]? = some loop) : (bus.settle resilience i loop answer).Stage := by
  obtain ⟨kind, phase⟩ := loop
  cases kind with
  | reconnectPersistently => exact stage_reconnects h hloop (reconnects_settle hloop)
  | connectWithRetry attempt =>
      cases h with
      | idle hloops =>
          rw [hloops] at hloop
          cases hloop
      | connecting other phase' hloops hconnected hreconnecting hconnection hquiet =>
          obtain ⟨hzero, heq⟩ := only_loop hloops hloop
          cases heq
          subst hzero
          have hconnecting : bus.Connecting := ⟨⟨_, hloops⟩, hconnected, hreconnecting, hquiet⟩
          cases answer with
          | resolved => exact stage_resolve hconnecting hconnection
          | rejected mismatch => exact stage_reject hconnecting hconnection
      | up _ hloops =>
          rw [hloops] at hloop
          cases hloop
      | reconnecting other _ hloops =>
          have heq := (only_loop hloops hloop).2
          cases heq
      | closed _ hloops =>
          have hkind := hloops _ (List.mem_of_getElem? hloop)
          cases hkind

/-- The objects, the handlers and the setups of a bus do not decide its stage, as long as
nothing new listens. -/
theorem stage_of_tables {handlers : List String} {channel : Option Nat} {setups : List Setup}
    {closing : Option CloseStep} {connections : Nat → ConnectionObject}
    {channels : Nat → ChannelObject} (h : bus.Stage)
    (hquiet : Quiet bus.connections bus.channels → Quiet connections channels) :
    ({ bus with handlers, channel, setups, closing, connections, channels } : Bus).Stage := by
  cases h with
  | idle hloops hconnected hreconnecting hconnection hold =>
      exact .idle hloops hconnected hreconnecting hconnection (hquiet hold)
  | connecting attempt phase hloops hconnected hreconnecting hconnection hold =>
      exact .connecting attempt phase hloops hconnected hreconnecting hconnection (hquiet hold)
  | up hclosed hloops hconnected hreconnecting =>
      exact .up hclosed hloops hconnected hreconnecting
  | reconnecting phase hclosed hloops hconnected hreconnecting =>
      exact .reconnecting phase hclosed hloops hconnected hreconnecting
  | closed hclosed hloops => exact .closed hclosed hloops

theorem stage_connect (h : bus.Stage) (halone : bus.Alone .connect) :
    (bus.connect resilience).Stage := by
  unfold connect
  split_ifs with hguard
  · exact h
  · have hconnected : bus.connected = false := by
      simp only [Bool.or_eq_true, not_or, Bool.not_eq_true] at hguard
      exact hguard.1
    cases halone with
    | inl hwas =>
        rw [hconnected] at hwas
        cases hwas
    | inr hfree =>
        obtain ⟨hopen, hnone⟩ := hfree
        have hloops : bus.loops ++ [⟨.connectWithRetry 0, .connect⟩] =
            [⟨.connectWithRetry 0, .connect⟩] := by
          rw [hnone]
          rfl
        cases h with
        | idle _ _ hreconnecting hconnection hquiet =>
            exact .connecting 0 .connect hloops hconnected hreconnecting (.inl hconnection) hquiet
        | connecting _ _ hother =>
            rw [hnone] at hother
            cases hother
        | up _ _ hwas =>
            rw [hconnected] at hwas
            cases hwas
        | reconnecting _ _ hother =>
            rw [hnone] at hother
            cases hother
        | closed hclosed =>
            rw [hopen] at hclosed
            cases hclosed

theorem stage_on {eventName : String} (h : bus.Stage) :
    (bus.on resilience eventName).2.Stage := by
  unfold on
  split_ifs
  · exact h
  · exact h
  · simp only
    split_ifs
    · exact @stage_of_tables bus _ _ _ _ _ _ h fun hquiet => hquiet
    · exact @stage_of_tables bus _ _ _ _ _ _ h fun hquiet => hquiet

theorem stage_close (h : bus.Stage) : bus.close.Stage := by
  unfold close
  split_ifs with hclosed
  · exact h
  · cases h with
    | idle hloops _ hreconnecting hconnection hquiet =>
        exact .idle hloops rfl hreconnecting hconnection hquiet
    | connecting attempt phase hloops _ hreconnecting hconnection hquiet =>
        refine .connecting attempt phase hloops rfl hreconnecting ?_ hquiet
        exact hconnection.imp_right fun hwas => ⟨rfl, hwas.2⟩
    | up _ hloops =>
        refine .closed rfl fun loop hmem => ?_
        have hmem' : loop ∈ bus.loops := hmem
        rw [hloops] at hmem'
        cases hmem'
    | reconnecting phase _ hloops =>
        refine .closed rfl fun loop hmem => ?_
        have hmem' : loop ∈ bus.loops := hmem
        rw [hloops] at hmem'
        rw [List.mem_singleton.mp hmem']
    | closed hwas => exact absurd hwas hclosed

theorem stage_settleClose {closeStep : CloseStep} (h : bus.Stage) (hclosed : bus.closed = true) :
    (bus.settleClose closeStep).Stage := by
  cases closeStep with
  | channel channel =>
      exact @stage_of_tables bus _ _ _ _ _ _ h fun hquiet =>
        hquiet.updateChannel (hquiet.channels channel)
  | connection connection =>
      cases h with
      | idle hloops hconnected hreconnecting _ hquiet =>
          exact .idle hloops hconnected hreconnecting rfl (hquiet.closeConnection connection)
      | connecting attempt phase hloops hconnected hreconnecting _ hquiet =>
          exact .connecting attempt phase hloops hconnected hreconnecting (.inr ⟨hclosed, rfl⟩)
            (hquiet.closeConnection connection)
      | up hopen =>
          rw [hclosed] at hopen
          cases hopen
      | reconnecting _ hopen =>
          rw [hclosed] at hopen
          cases hopen
      | closed _ hloops => exact .closed hclosed hloops

theorem stage_notify {listening : Bool} (h : bus.Stage)
    (hquiet : Quiet bus.connections bus.channels → listening = false) :
    (bus.notify listening).Stage := by
  unfold notify handleUnexpectedClose
  split_ifs with hnotified hreconnecting
  · exact h
  · simp only [Bool.and_eq_true, Bool.not_eq_true'] at hnotified
    obtain ⟨hlistening, hopen⟩ := hnotified
    cases h with
    | idle _ _ _ _ hwas =>
        rw [hquiet hwas] at hlistening
        cases hlistening
    | connecting _ _ _ _ _ _ hwas =>
        rw [hquiet hwas] at hlistening
        cases hlistening
    | up _ hloops =>
        refine .reconnecting .connect hopen ?_ rfl rfl
        show bus.loops ++ _ = _
        rw [hloops]
        rfl
    | reconnecting _ _ _ _ hwas => exact absurd hwas hreconnecting
    | closed hclosed =>
        rw [hopen] at hclosed
        cases hclosed
  · exact h

theorem heard_quiet (h : Quiet bus.connections bus.channels) (connection : Nat) :
    bus.heard connection = false := by
  simp [heard, h.connections, h.channels]

theorem quiet_of_closeConnection {connection : Nat}
    (h : Quiet (bus.closeConnection connection).connections
      (bus.closeConnection connection).channels) : Quiet bus.connections bus.channels := by
  refine ⟨fun c => ?_, fun ch => ?_⟩
  · have hlistening := h.connections c
    by_cases heq : c = connection
    · subst heq
      have hself : (bus.closeConnection c).connections c = (bus.connections c).close :=
        Function.update_self ..
      rw [hself] at hlistening
      exact hlistening
    · have hother : (bus.closeConnection connection).connections c = bus.connections c :=
        Function.update_of_ne heq ..
      rw [hother] at hlistening
      exact hlistening
  · have hlistening := h.channels ch
    simp only [closeConnection] at hlistening
    split_ifs at hlistening
    · exact hlistening
    · exact hlistening

theorem closing_notify {listening : Bool} : (bus.notify listening).closing = bus.closing := by
  unfold notify handleUnexpectedClose
  split_ifs <;> rfl

theorem closed_notify {listening : Bool} : (bus.notify listening).closed = bus.closed := by
  unfold notify handleUnexpectedClose
  split_ifs <;> rfl

structure Staged (bus : Bus) : Prop where
  stage : bus.Stage
  closing : bus.closing.isSome = true → bus.closed = true

theorem staged_init : Staged {} := by
  refine ⟨.idle rfl rfl rfl rfl ⟨fun _ => rfl, fun _ => rfl⟩, fun h => ?_⟩
  cases h

/-! ## The steps -/

/-- What no step of a loop changes. -/
structure Keeps (handlers : List String) (closed : Bool) (setups : List Setup)
    (closing : Option CloseStep) (next : Bus) : Prop where
  handlers : next.handlers = handlers
  closed : next.closed = closed
  setups : next.setups = setups
  closing : next.closing = closing

abbrev KeptBy (bus next : Bus) : Prop :=
  Keeps bus.handlers bus.closed bus.setups bus.closing next

theorem keeps_complete {i connection channel : Nat} {kind : LoopKind} :
    bus.KeptBy (bus.complete i connection channel kind) := by
  cases kind with
  | connectWithRetry attempt => exact ⟨rfl, rfl, rfl, rfl⟩
  | reconnectPersistently => exact ⟨rfl, rfl, rfl, rfl⟩

theorem keeps_setUpFrom {i connection channel index : Nat} {kind : LoopKind} :
    bus.KeptBy (bus.setUpFrom resilience i kind connection channel index) := by
  unfold setUpFrom
  cases bus.nextSetup resilience index with
  | some setup => exact ⟨rfl, rfl, rfl, rfl⟩
  | none => exact keeps_complete

theorem keeps_afterCleanup {i attempt : Nat} {mismatch : Bool} :
    bus.KeptBy (bus.afterCleanup resilience i attempt mismatch) := by
  unfold afterCleanup
  simp only
  split_ifs
  · exact ⟨rfl, rfl, rfl, rfl⟩
  · exact ⟨rfl, rfl, rfl, rfl⟩
  · exact ⟨rfl, rfl, rfl, rfl⟩

/-- Of a step of `_reconnectPersistently` that does not succeed. -/
theorem keeps_unless_closed {i : Nat} {loop : Loop} :
    bus.KeptBy (if bus.closed then bus.stopReconnecting i else bus.await i loop) := by
  split_ifs
  · exact ⟨rfl, rfl, rfl, rfl⟩
  · exact ⟨rfl, rfl, rfl, rfl⟩

theorem keeps_attemptFails {i : Nat} {connection : Option Nat} {mismatch : Bool}
    {kind : LoopKind} : bus.KeptBy (bus.attemptFails resilience i connection mismatch kind) := by
  cases kind with
  | connectWithRetry attempt =>
      cases connection with
      | some connection => exact ⟨rfl, rfl, rfl, rfl⟩
      | none => exact keeps_afterCleanup
  | reconnectPersistently => exact keeps_unless_closed

theorem keeps_resolve {i : Nat} {kind : LoopKind} {phase : LoopPhase} :
    bus.KeptBy (bus.resolve resilience i kind phase) := by
  cases phase with
  | connect => cases kind <;> exact ⟨rfl, rfl, rfl, rfl⟩
  | createConfirmChannel connection => exact ⟨rfl, rfl, rfl, rfl⟩
  | prefetch connection channel => exact ⟨rfl, rfl, rfl, rfl⟩
  | assertExchange connection channel =>
      cases kind with
      | connectWithRetry attempt => exact keeps_setUpFrom
      | reconnectPersistently =>
          exact @keeps_setUpFrom resilience (bus.updateChannel channel .listen) _ _ _ _ _
  | setupConsumer connection channel index setup =>
      cases hnext : setup.awaits.next with
      | some awaits =>
          simp only [resolve, hnext]
          exact ⟨rfl, rfl, rfl, rfl⟩
      | none =>
          simp only [resolve, hnext]
          exact @keeps_setUpFrom resilience
            (bus.updateChannel setup.channel (.addConsumer setup.eventName)) _ _ _ _ _
  | close connection mismatch =>
      cases kind with
      | connectWithRetry attempt =>
          exact @keeps_afterCleanup resilience (bus.closeConnection connection) _ _ _
      | reconnectPersistently => exact ⟨rfl, rfl, rfl, rfl⟩
  | backoff =>
      cases kind with
      | connectWithRetry attempt => exact ⟨rfl, rfl, rfl, rfl⟩
      | reconnectPersistently => exact keeps_unless_closed

theorem keeps_settle {i : Nat} {loop : Loop} {answer : Answer} :
    bus.KeptBy (bus.settle resilience i loop answer) := by
  cases answer with
  | resolved => exact keeps_resolve
  | rejected mismatch =>
      unfold settle reject
      cases loop.phase with
      | close connection mismatch => exact keeps_resolve
      | backoff => exact keeps_resolve
      | _ => exact keeps_attemptFails

theorem staged_step {action : Action} (h : bus.Staged) (halone : bus.Alone action)
    (hstep : bus.step resilience action = some next) : next.Staged := by
  cases action with
  | connect =>
      cases hstep
      refine ⟨stage_connect h.stage halone, ?_⟩
      unfold connect
      split_ifs
      · exact h.closing
      · exact h.closing
  | on eventName =>
      cases hstep
      refine ⟨stage_on h.stage, ?_⟩
      unfold on
      split_ifs
      · exact h.closing
      · exact h.closing
      · simp only
        split_ifs
        · exact h.closing
        · exact h.closing
  | close =>
      cases hstep
      refine ⟨stage_close h.stage, ?_⟩
      unfold close
      split_ifs with hclosed
      · exact h.closing
      · exact fun _ => rfl
  | settle i answer =>
      obtain ⟨loop, hloop, rfl⟩ := Option.map_eq_some_iff.mp hstep
      refine ⟨stage_settle h.stage hloop, ?_⟩
      have hkept := @keeps_settle resilience bus i loop answer
      rw [hkept.closing, hkept.closed]
      exact h.closing
  | settleSetup j ok =>
      obtain ⟨setup, hsetup, rfl⟩ := Option.map_eq_some_iff.mp hstep
      unfold settleSetup
      split_ifs
      · cases setup.awaits.next with
        | some awaits => exact ⟨@stage_of_tables bus _ _ _ _ _ _ h.stage fun hq => hq, h.closing⟩
        | none =>
            exact ⟨@stage_of_tables bus _ _ _ _ _ _ h.stage fun hq =>
              hq.addConsumer setup.channel setup.eventName, h.closing⟩
      · exact ⟨@stage_of_tables bus _ _ _ _ _ _ h.stage fun hq => hq, h.closing⟩
  | settleClose =>
      obtain ⟨closeStep, hclosing, rfl⟩ := Option.map_eq_some_iff.mp hstep
      have hclosed := h.closing (Option.isSome_of_mem hclosing)
      refine ⟨stage_settleClose h.stage hclosed, fun _ => ?_⟩
      cases closeStep with
      | channel channel => exact hclosed
      | connection connection => exact hclosed
  | connectionCloses connection =>
      simp only [step] at hstep
      split_ifs at hstep
      cases hstep
      have hclose : (bus.closeConnection connection).Stage :=
        @stage_of_tables bus _ _ _ _ _ _ h.stage fun hq => hq.closeConnection connection
      refine ⟨stage_notify hclose fun hq => heard_quiet (quiet_of_closeConnection hq) connection,
        ?_⟩
      rw [closing_notify, closed_notify]
      exact h.closing
  | channelCloses channel =>
      simp only [step] at hstep
      split_ifs at hstep
      cases hstep
      have hclose : (bus.updateChannel channel .close).Stage :=
        @stage_of_tables bus _ _ _ _ _ _ h.stage fun hq =>
          hq.updateChannel (hq.channels channel)
      refine ⟨stage_notify hclose fun hq => ?_, ?_⟩
      · have hlistening := hq.channels channel
        have hself : (bus.updateChannel channel .close).channels channel =
            (bus.channels channel).close := Function.update_self ..
        rw [hself] at hlistening
        exact hlistening
      · rw [closing_notify, closed_notify]
        exact h.closing

end Bus

end Noddde.Brokers.RabbitMqEventBus
