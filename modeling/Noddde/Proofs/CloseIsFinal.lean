import Noddde.Proofs.RabbitMqLoops
/-!
# What `close()` of the RabbitMQ bus leaves open

Every open connection is one that `close()` is going to close, or one that an attempt of
`_connectWithRetry` closes when it fails.
-/

namespace Noddde.Brokers.RabbitMqEventBus

/-- `close()`, called or not, has yet to read `_connection`. -/
def WillRead (closed : Bool) (closing : Option CloseStep) : Prop :=
  closed = false ∨ ∃ channel, closing = some (.channel channel)

instance (closed : Bool) (closing : Option CloseStep) : Decidable (WillRead closed closing) :=
  match closing with
  | some (.channel channel) => isTrue (.inr ⟨channel, rfl⟩)
  | some (.connection _) => decidable_of_iff (closed = false) (by simp [WillRead])
  | none => decidable_of_iff (closed = false) (by simp [WillRead])

/-- An attempt of `_connectWithRetry` that closes the connection if it fails. -/
def Loop.Holds (loop : Loop) (connection : Nat) : Prop :=
  loop.kind ≠ .reconnectPersistently ∧ loop.phase.connection = some connection

inductive Held (connection : Option Nat) (closed : Bool) (closing : Option CloseStep)
    (loops : List Loop) (c : Nat) : Prop
  | field (h : connection = some c) (hread : WillRead closed closing)
  | closing (h : closing = some (.connection c))
  | loop (loop : Loop) (hmem : loop ∈ loops) (h : loop.Holds c)

theorem Held.mono {connection : Option Nat} {closed : Bool} {closing : Option CloseStep}
    {loops loops' : List Loop} {c : Nat} (h : Held connection closed closing loops c)
    (hloops : ∀ loop ∈ loops, loop.Holds c → loop ∈ loops') :
    Held connection closed closing loops' c := by
  cases h with
  | field h hread => exact .field h hread
  | closing h => exact .closing h
  | loop loop hmem hholds => exact .loop loop (hloops loop hmem hholds) hholds

namespace Bus

variable {resilience : Resilience} {bus next : Bus}

/-- Calls of `connect()` do not overlap with a loop and come before `close()`; a reconnection
gets a connection only while that of the field is not open and `close()` has yet to read the
field; and no attempt succeeds on a closed bus. -/
def Contained (resilience : Resilience) (bus : Bus) : Action → Prop
  | .settle i .resolved => ∀ loop, bus.loops[i]? = some loop →
      (loop = ⟨.reconnectPersistently, .connect⟩ →
        (∀ c, bus.connection = some c → bus.isOpen c = false) ∧
          WillRead bus.closed bus.closing) ∧
      (bus.lastAwait resilience loop.phase = true → bus.closed = false)
  | action => bus.Alone action

instance : DecidablePred (Contained resilience bus) := fun action =>
  match action with
  | .settle i .resolved =>
      inferInstanceAs (Decidable (∀ loop ∈ bus.loops[i]?,
        (loop = ⟨.reconnectPersistently, .connect⟩ →
          (∀ c ∈ bus.connection, bus.isOpen c = false) ∧ WillRead bus.closed bus.closing) ∧
        (bus.lastAwait resilience loop.phase = true → bus.closed = false)))
  | .connect =>
      inferInstanceAs (Decidable (bus.connected = true ∨ bus.closed = false ∧ bus.loops = []))
  | .settle _ (.rejected _) | .on _ | .close | .settleSetup _ _ | .settleClose
  | .connectionCloses _ | .channelCloses _ => isTrue trivial

/-- Every open connection is held by something that closes it. -/
abbrev AllHeld (bus : Bus) : Prop :=
  ∀ c, bus.isOpen c = true → Held bus.connection bus.closed bus.closing bus.loops c

structure CloseInv (bus : Bus) : Prop where
  held : bus.AllHeld
  connected : bus.closed = true → bus.connected = false

theorem isOpen_addConnection {c : Nat} (h : c ≠ bus.connectionsMade) :
    bus.addConnection.isOpen c = bus.isOpen c := by
  show (Function.update bus.connections bus.connectionsMade _ c).isOpen = _
  rw [Function.update_of_ne h]
  rfl

theorem isOpen_closeConnection {connection c : Nat}
    (h : (bus.closeConnection connection).isOpen c = true) :
    c ≠ connection ∧ bus.isOpen c = true := by
  have hne : c ≠ connection := by
    intro heq
    subst heq
    have hself : (bus.closeConnection c).connections c = (bus.connections c).close :=
      Function.update_self ..
    rw [isOpen, hself] at h
    cases h
  have hsame : (bus.closeConnection connection).connections c = bus.connections c :=
    Function.update_of_ne hne ..
  rw [isOpen, hsame] at h
  exact ⟨hne, h⟩

theorem isOpen_listen {connection c : Nat} :
    (bus.updateConnection connection .listen).isOpen c = bus.isOpen c := by
  show (Function.update bus.connections connection _ c).isOpen = _
  by_cases heq : c = connection
  · subst heq
    rw [Function.update_self]
    rfl
  · rw [Function.update_of_ne heq]
    rfl

/-! ## `_connectWithRetry` -/

/-- Every open connection is that of the attempt, or one that is closed without it. -/
def HeldAt (bus : Bus) (connection : Option Nat) : Prop :=
  ∀ c, bus.isOpen c = true → connection = some c ∨ Held bus.connection bus.closed bus.closing [] c

theorem heldAt_of_allHeld {loop : Loop} (h : bus.AllHeld) (hloops : bus.loops = [loop]) :
    bus.HeldAt loop.phase.connection := by
  intro c hopen
  have hheld := h c hopen
  rw [hloops] at hheld
  cases hheld with
  | field h hread => exact .inr (.field h hread)
  | closing h => exact .inr (.closing h)
  | loop other hmem hholds =>
      rw [List.mem_singleton.mp hmem] at hholds
      exact .inl hholds.2

theorem inv_await {attempt : Nat} {phase : LoopPhase} (hloops : ∃ loop, bus.loops = [loop])
    (hconnected : bus.connected = false) (h : bus.HeldAt phase.connection) :
    (bus.await 0 ⟨.connectWithRetry attempt, phase⟩).CloseInv := by
  obtain ⟨loop, hloops⟩ := hloops
  have hset : bus.loops.set 0 ⟨.connectWithRetry attempt, phase⟩ =
      [⟨.connectWithRetry attempt, phase⟩] := by
    rw [hloops]
    rfl
  refine ⟨fun c hopen => ?_, fun _ => hconnected⟩
  show Held bus.connection bus.closed bus.closing (bus.loops.set 0 _) c
  rw [hset]
  cases h c hopen with
  | inl hphase =>
      have hholds : Loop.Holds ⟨.connectWithRetry attempt, phase⟩ c := by
        refine ⟨fun heq => ?_, hphase⟩
        cases heq
      exact .loop _ (List.mem_singleton_self _) hholds
  | inr hheld => exact hheld.mono fun loop hmem => by cases hmem

theorem inv_afterCleanup {attempt : Nat} {mismatch : Bool} (hconnecting : bus.Connecting)
    (h : ∀ c, bus.isOpen c = true → bus.closing = some (.connection c)) :
    (bus.afterCleanup resilience 0 attempt mismatch).CloseInv := by
  have hheld (loops : List Loop) (c : Nat) (hopen : bus.isOpen c = true) :
      Held none bus.closed bus.closing loops c := .closing (h c hopen)
  have hend : ({ bus with connection := none, channel := none } : Bus).endLoop 0 |>.CloseInv :=
    ⟨fun c hopen => hheld _ c hopen, fun _ => hconnecting.connected⟩
  unfold afterCleanup
  simp only
  split_ifs
  · exact hend
  · exact ⟨fun c hopen => hheld _ c hopen, fun _ => hconnecting.connected⟩
  · exact hend

/-- Without the connection of the attempt, nothing is held by the field. -/
theorem closing_of_heldAt {phase : LoopPhase} {c : Nat} (h : bus.HeldAt phase.connection)
    (hconnection : bus.connection = phase.connection ∨
      bus.closed = true ∧ bus.connection = none)
    (hopen : bus.isOpen c = true) (hother : phase.connection ≠ some c) :
    bus.closing = some (.connection c) := by
  cases h c hopen with
  | inl hphase => exact absurd hphase hother
  | inr hheld =>
      cases hheld with
      | field hfield _ =>
          cases hconnection with
          | inl hsame => exact absurd (hsame.symm.trans hfield) hother
          | inr hnone =>
              rw [hnone.2] at hfield
              cases hfield
      | closing hclosing => exact hclosing
      | loop _ hmem _ => cases hmem

theorem inv_setUpFrom {attempt connection channel index : Nat} (hconnecting : bus.Connecting)
    (hconnection : bus.connection = some connection ∨
      bus.closed = true ∧ bus.connection = none)
    (h : bus.HeldAt (some connection))
    (hlast : bus.nextSetup resilience index = none → bus.closed = false) :
    (bus.setUpFrom resilience 0 (.connectWithRetry attempt) connection channel
      index).CloseInv := by
  unfold setUpFrom
  cases hnext : bus.nextSetup resilience index with
  | some setup => exact inv_await hconnecting.loops hconnecting.connected h
  | none =>
      have hopen := hlast hnext
      have hfield : bus.connection = some connection := by
        cases hconnection with
        | inl hsame => exact hsame
        | inr hclosed =>
            rw [hopen] at hclosed
            cases hclosed.1
      refine ⟨fun c hc => ?_, fun hclosed => ?_⟩
      · have hwas : (bus.updateConnection connection .listen).isOpen c = true := hc
        rw [isOpen_listen] at hwas
        cases h c hwas with
        | inl hsame => exact .field (hfield.trans hsame) (.inl hopen)
        | inr hheld => exact hheld.mono fun loop hmem => by cases hmem
      · have hwas : bus.closed = true := hclosed
        rw [hopen] at hwas
        cases hwas

theorem inv_resolve_connect {attempt : Nat} {phase : LoopPhase}
    (hconnecting : bus.Connecting)
    (hconnection : bus.connection = phase.connection ∨
      bus.closed = true ∧ bus.connection = none)
    (h : bus.HeldAt phase.connection)
    (hlast : bus.lastAwait resilience phase = true → bus.closed = false) :
    (bus.resolve resilience 0 (.connectWithRetry attempt) phase).CloseInv := by
  have hloops := hconnecting.loops
  have hconnected := hconnecting.connected
  cases phase with
  | connect =>
      have hadded : bus.addConnection.HeldAt (some bus.connectionsMade) := by
        intro c hopen
        by_cases heq : c = bus.connectionsMade
        · exact .inl (congrArg some heq.symm)
        · rw [isOpen_addConnection heq] at hopen
          have hother : LoopPhase.connect.connection ≠ some c := by
            intro hnone
            cases hnone
          have hclosing : bus.closing = some (.connection c) :=
            closing_of_heldAt h hconnection hopen hother
          exact .inr (.closing hclosing)
      exact @inv_await bus.addConnection _ _ hloops hconnected hadded
  | createConfirmChannel connection => exact inv_await hloops hconnected h
  | prefetch connection channel => exact inv_await hloops hconnected h
  | assertExchange connection channel =>
      apply inv_setUpFrom hconnecting hconnection h
      intro hnone
      apply hlast
      show (bus.nextSetup resilience 0).isNone = true
      rw [hnone]
      rfl
  | setupConsumer connection channel index setup =>
      cases hnext : setup.awaits.next with
      | some awaits =>
          simp only [resolve, hnext]
          exact inv_await hloops hconnected h
      | none =>
          simp only [resolve, hnext]
          have hadded : (bus.updateChannel setup.channel
              (.addConsumer setup.eventName)).Connecting :=
            ⟨hloops, hconnected, hconnecting.reconnecting,
              hconnecting.quiet.addConsumer setup.channel setup.eventName⟩
          apply inv_setUpFrom hadded hconnection h
          intro hnone
          have hsame : bus.nextSetup resilience (index + 1) = none := hnone
          apply hlast
          show (setup.awaits.next.isNone && (bus.nextSetup resilience (index + 1)).isNone) = true
          rw [hnext, hsame]
          rfl
  | close connection mismatch =>
      have hclosed : (bus.closeConnection connection).Connecting :=
        ⟨hloops, hconnected, hconnecting.reconnecting,
          hconnecting.quiet.closeConnection connection⟩
      apply inv_afterCleanup hclosed
      intro c hopen
      obtain ⟨hne, hwas⟩ := isOpen_closeConnection hopen
      apply closing_of_heldAt h hconnection hwas
      intro hphase
      exact hne (Option.some.inj hphase).symm
  | backoff => exact inv_await hloops hconnected h

theorem inv_reject_connect {attempt : Nat} {phase : LoopPhase} {mismatch : Bool}
    (hconnecting : bus.Connecting)
    (hconnection : bus.connection = phase.connection ∨
      bus.closed = true ∧ bus.connection = none)
    (h : bus.HeldAt phase.connection) :
    (bus.reject resilience 0 (.connectWithRetry attempt) mismatch phase).CloseInv := by
  have hloops := hconnecting.loops
  have hconnected := hconnecting.connected
  cases phase with
  | connect =>
      show (bus.afterCleanup resilience 0 attempt false).CloseInv
      apply inv_afterCleanup hconnecting
      intro c hopen
      apply closing_of_heldAt h hconnection hopen
      intro hnone
      cases hnone
  | close connection mismatch =>
      apply inv_resolve_connect hconnecting hconnection h
      intro hlast
      cases hlast
  | backoff => exact inv_await hloops hconnected h
  | createConfirmChannel connection => exact inv_await hloops hconnected h
  | prefetch connection channel => exact inv_await hloops hconnected h
  | assertExchange connection channel => exact inv_await hloops hconnected h
  | setupConsumer connection channel index setup => exact inv_await hloops hconnected h

/-! ## `_reconnectPersistently` -/

/-- Every open connection is closed without a loop. -/
def HeldAlone (bus : Bus) : Prop :=
  ∀ c, bus.isOpen c = true → Held bus.connection bus.closed bus.closing [] c

/-- A step of the reconnection that opens nothing, from a state with the given fields: it
succeeds only if it was awaiting the last promise. -/
structure OpensNothing (connections : Nat → ConnectionObject) (connection : Option Nat)
    (connected last : Bool) (next : Bus) : Prop where
  isOpen : ∀ c, next.isOpen c = (connections c).isOpen
  connection : next.connection = connection
  connected : last = false → next.connected = connected

theorem opensNothing_setUpFrom {i connection channel index : Nat} :
    OpensNothing bus.connections bus.connection bus.connected
      (bus.nextSetup resilience index).isNone
      (bus.setUpFrom resilience i .reconnectPersistently connection channel index) := by
  unfold setUpFrom
  cases bus.nextSetup resilience index with
  | some setup => exact ⟨fun c => rfl, rfl, fun _ => rfl⟩
  | none =>
      refine ⟨fun c => rfl, rfl, fun hlast => ?_⟩
      cases hlast

theorem opensNothing_unless_closed {i : Nat} {loop : Loop} {last : Bool} :
    OpensNothing bus.connections bus.connection bus.connected last
      (if bus.closed then bus.stopReconnecting i else bus.await i loop) := by
  split_ifs
  · exact ⟨fun c => rfl, rfl, fun _ => rfl⟩
  · exact ⟨fun c => rfl, rfl, fun _ => rfl⟩

theorem opensNothing_resolve {i : Nat} {phase : LoopPhase} (hphase : phase ≠ .connect) :
    OpensNothing bus.connections bus.connection bus.connected (bus.lastAwait resilience phase)
      (bus.resolve resilience i .reconnectPersistently phase) := by
  cases phase with
  | connect => exact absurd rfl hphase
  | createConfirmChannel connection => exact ⟨fun c => rfl, rfl, fun _ => rfl⟩
  | prefetch connection channel => exact ⟨fun c => rfl, rfl, fun _ => rfl⟩
  | assertExchange connection channel =>
      exact @opensNothing_setUpFrom resilience (bus.updateChannel channel .listen) _ _ _ _
  | setupConsumer connection channel index setup =>
      cases hnext : setup.awaits.next with
      | some awaits =>
          simp only [resolve, hnext]
          exact ⟨fun c => rfl, rfl, fun _ => rfl⟩
      | none =>
          simp only [resolve, lastAwait, hnext]
          exact @opensNothing_setUpFrom resilience
            (bus.updateChannel setup.channel (.addConsumer setup.eventName)) _ _ _ _
  | close connection mismatch => exact ⟨fun c => rfl, rfl, fun _ => rfl⟩
  | backoff => exact opensNothing_unless_closed

theorem opensNothing_reject {i : Nat} {phase : LoopPhase} {mismatch : Bool} :
    OpensNothing bus.connections bus.connection bus.connected false
      (bus.reject resilience i .reconnectPersistently mismatch phase) := by
  cases phase with
  | close connection mismatch => exact ⟨fun c => rfl, rfl, fun _ => rfl⟩
  | backoff => exact opensNothing_unless_closed
  | _ => exact opensNothing_unless_closed

theorem inv_of_opensNothing {last : Bool} (h : bus.HeldAlone)
    (hconnected : bus.closed = true → bus.connected = false) (hkept : bus.KeptBy next)
    (hnext : OpensNothing bus.connections bus.connection bus.connected last next)
    (hlast : last = true → bus.closed = false) : next.CloseInv := by
  refine ⟨fun c hopen => ?_, fun hclosed => ?_⟩
  · rw [hnext.isOpen] at hopen
    rw [hnext.connection, hkept.closed, hkept.closing]
    exact (h c hopen).mono fun loop hmem => by cases hmem
  · rw [hkept.closed] at hclosed
    cases last with
    | false => exact (hnext.connected rfl).trans (hconnected hclosed)
    | true =>
        rw [hlast rfl] at hclosed
        cases hclosed

theorem inv_settle_reconnect {i : Nat} {phase : LoopPhase} {answer : Answer}
    (h : bus.HeldAlone) (hconnected : bus.closed = true → bus.connected = false)
    (hloop : bus.loops[i]? = some ⟨.reconnectPersistently, phase⟩)
    (hcontained : bus.Contained resilience (.settle i answer)) :
    (bus.settle resilience i ⟨.reconnectPersistently, phase⟩ answer).CloseInv := by
  have hkept := @keeps_settle resilience bus i ⟨.reconnectPersistently, phase⟩ answer
  cases answer with
  | rejected mismatch =>
      apply inv_of_opensNothing h hconnected hkept opensNothing_reject
      intro hlast
      cases hlast
  | resolved =>
      obtain ⟨hconnect, hlast⟩ := hcontained _ hloop
      by_cases hphase : phase = .connect
      · subst hphase
        obtain ⟨hnot, hread⟩ := hconnect rfl
        refine ⟨fun c hopen => ?_, hconnected⟩
        have hadded : (bus.addConnection.updateConnection bus.connectionsMade
            .listen).isOpen c = true := hopen
        rw [isOpen_listen] at hadded
        by_cases heq : c = bus.connectionsMade
        · exact .field (congrArg some heq.symm) hread
        · rw [isOpen_addConnection heq] at hadded
          cases h c hadded with
          | field hfield _ =>
              rw [hnot c hfield] at hadded
              cases hadded
          | closing hclosing => exact .closing hclosing
          | loop _ hmem _ => cases hmem
      · exact inv_of_opensNothing h hconnected hkept (opensNothing_resolve hphase) hlast

/-! ## The steps -/

theorem heldAlone_of_reconnecting (h : bus.AllHeld)
    (hloops : ∀ loop ∈ bus.loops, loop.kind = .reconnectPersistently) : bus.HeldAlone := by
  intro c hopen
  cases h c hopen with
  | field hfield hread => exact .field hfield hread
  | closing hclosing => exact .closing hclosing
  | loop loop hmem hholds => exact absurd (hloops loop hmem) hholds.1

theorem inv_settle {i : Nat} {loop : Loop} {answer : Answer} (h : bus.CloseInv)
    (hstage : bus.Stage) (hloop : bus.loops[i]? = some loop)
    (hcontained : bus.Contained resilience (.settle i answer)) :
    (bus.settle resilience i loop answer).CloseInv := by
  obtain ⟨kind, phase⟩ := loop
  have hmem := List.mem_of_getElem? hloop
  cases hstage with
  | idle hloops =>
      rw [hloops] at hmem
      cases hmem
  | up _ hloops =>
      rw [hloops] at hmem
      cases hmem
  | connecting attempt other hloops hconnected hreconnecting hconnection hquiet =>
      obtain ⟨hzero, heq⟩ := only_loop hloops hloop
      cases heq
      subst hzero
      have hconnecting : bus.Connecting := ⟨⟨_, hloops⟩, hconnected, hreconnecting, hquiet⟩
      have hheld := heldAt_of_allHeld h.held hloops
      cases answer with
      | resolved =>
          exact inv_resolve_connect hconnecting hconnection hheld (hcontained _ hloop).2
      | rejected mismatch => exact inv_reject_connect hconnecting hconnection hheld
  | reconnecting other _ hloops =>
      have hall : ∀ loop ∈ bus.loops, loop.kind = .reconnectPersistently := by
        intro loop hloop
        rw [hloops] at hloop
        rw [List.mem_singleton.mp hloop]
      have hkind : kind = .reconnectPersistently := hall _ hmem
      subst hkind
      exact inv_settle_reconnect (heldAlone_of_reconnecting h.held hall) h.connected hloop
        hcontained
  | closed _ hall =>
      have hkind : kind = .reconnectPersistently := hall _ hmem
      subst hkind
      exact inv_settle_reconnect (heldAlone_of_reconnecting h.held hall) h.connected hloop
        hcontained

theorem inv_close (h : bus.CloseInv) (hstaged : bus.Staged) : bus.close.CloseInv := by
  unfold close
  split_ifs with hclosed
  · exact h
  · refine ⟨fun c hopen => ?_, fun _ => rfl⟩
    show Held bus.connection true ((bus.channel.map CloseStep.channel).or bus.closeRest)
      bus.loops c
    cases h.held c hopen with
    | field hfield _ =>
        cases hchannel : bus.channel with
        | some channel => exact .field hfield (.inr ⟨channel, rfl⟩)
        | none =>
            apply Held.closing
            show bus.connection.map CloseStep.connection = _
            rw [hfield]
            rfl
    | closing hclosing => exact absurd (hstaged.closing (Option.isSome_of_mem hclosing)) hclosed
    | loop loop hmem hholds => exact .loop loop hmem hholds

theorem inv_settleClose {closeStep : CloseStep} (h : bus.CloseInv) (hstaged : bus.Staged)
    (hclosing : bus.closing = some closeStep) : (bus.settleClose closeStep).CloseInv := by
  have hclosed := hstaged.closing (Option.isSome_of_mem hclosing)
  cases closeStep with
  | channel channel =>
      refine ⟨fun c hopen => ?_, h.connected⟩
      show Held bus.connection bus.closed bus.closeRest bus.loops c
      cases h.held c hopen with
      | field hfield _ =>
          apply Held.closing
          show bus.connection.map CloseStep.connection = _
          rw [hfield]
          rfl
      | closing hother =>
          rw [hclosing] at hother
          cases hother
      | loop loop hmem hholds => exact .loop loop hmem hholds
  | connection connection =>
      refine ⟨fun c hopen => ?_, h.connected⟩
      obtain ⟨hne, hwas⟩ := isOpen_closeConnection hopen
      cases h.held c hwas with
      | field _ hread =>
          cases hread with
          | inl hnot =>
              rw [hclosed] at hnot
              cases hnot
          | inr hchannel =>
              obtain ⟨channel, hchannel⟩ := hchannel
              rw [hclosing] at hchannel
              cases hchannel
      | closing hother =>
          rw [hclosing] at hother
          cases hother
          exact absurd rfl hne
      | loop loop hmem hholds => exact .loop loop hmem hholds

theorem inv_notify {listening : Bool} (h : bus.CloseInv) : (bus.notify listening).CloseInv := by
  unfold notify handleUnexpectedClose
  split_ifs
  · exact h
  · refine ⟨fun c hopen => (h.held c hopen).mono fun loop hmem _ => ?_, fun _ => rfl⟩
    exact List.mem_append_left _ hmem
  · exact h

theorem closeInv_init : CloseInv {} := by
  refine ⟨fun c hopen => ?_, fun _ => rfl⟩
  cases hopen

theorem closeInv_step {action : Action} (h : bus.CloseInv) (hstaged : bus.Staged)
    (hcontained : bus.Contained resilience action)
    (hstep : bus.step resilience action = some next) : next.CloseInv := by
  cases action with
  | connect =>
      cases hstep
      unfold connect
      split_ifs
      · exact h
      · refine ⟨fun c hopen => (h.held c hopen).mono fun loop hmem _ => ?_, h.connected⟩
        exact List.mem_append_left _ hmem
  | on eventName =>
      cases hstep
      unfold on
      split_ifs
      · exact h
      · exact h
      · simp only
        split_ifs
        · exact ⟨h.held, h.connected⟩
        · exact ⟨h.held, h.connected⟩
  | close =>
      cases hstep
      exact inv_close h hstaged
  | settle i answer =>
      obtain ⟨loop, hloop, rfl⟩ := Option.map_eq_some_iff.mp hstep
      exact inv_settle h hstaged.stage hloop hcontained
  | settleSetup j ok =>
      obtain ⟨setup, hsetup, rfl⟩ := Option.map_eq_some_iff.mp hstep
      unfold settleSetup
      split_ifs
      · cases setup.awaits.next with
        | some awaits => exact ⟨h.held, h.connected⟩
        | none => exact ⟨h.held, h.connected⟩
      · exact ⟨h.held, h.connected⟩
  | settleClose =>
      obtain ⟨closeStep, hclosing, rfl⟩ := Option.map_eq_some_iff.mp hstep
      exact inv_settleClose h hstaged hclosing
  | connectionCloses connection =>
      simp only [step] at hstep
      split_ifs at hstep
      cases hstep
      have hclose : (bus.closeConnection connection).CloseInv :=
        ⟨fun c hopen => h.held c (isOpen_closeConnection hopen).2, h.connected⟩
      exact inv_notify hclose
  | channelCloses channel =>
      simp only [step] at hstep
      split_ifs at hstep
      cases hstep
      have hclose : (bus.updateChannel channel .close).CloseInv := ⟨h.held, h.connected⟩
      exact inv_notify hclose

/-! ## Closed for good -/

structure Settled (bus : Bus) : Prop where
  closed : bus.closed = true
  closing : bus.closing = none
  loops : bus.loops = []
  setups : bus.setups = []

structure Final (resilience : Resilience) (bus : Bus) : Prop where
  connections : ∀ c, bus.isOpen c = false
  channels : ∀ ch, (bus.channels ch).isOpen = false
  consumers : ∀ ch, (bus.channels ch).consumers = []
  connected : bus.connected = false
  dispatch : bus.dispatchThrows = true
  on : ∀ eventName, (bus.on resilience eventName).1 = false

theorem alone_of_contained {action : Action} (h : bus.Contained resilience action) :
    bus.Alone action := by
  cases action with
  | settle i answer => trivial
  | connect => exact h
  | _ => trivial

/-- After `close()` nothing is left open. -/
theorem final_of_run {resilience : Resilience} {bus : Bus}
    (h : Machine.Run (step resilience) (Contained resilience) {} bus) (hsettled : bus.Settled) :
    bus.Final resilience := by
  have hinv : (bus.Staged ∧ bus.Sound) ∧ bus.CloseInv := by
    apply h.inv (I := fun bus => (bus.Staged ∧ bus.Sound) ∧ bus.CloseInv)
    · exact ⟨⟨staged_init, sound_init⟩, closeInv_init⟩
    · intro bus action next hinv hcontained hstep
      obtain ⟨⟨hstaged, hsound⟩, hclose⟩ := hinv
      exact ⟨⟨staged_step hstaged (alone_of_contained hcontained) hstep, sound_step hsound hstep⟩,
        closeInv_step hclose hstaged hcontained hstep⟩
  obtain ⟨⟨-, hsound⟩, hclose⟩ := hinv
  have hconnections : ∀ c, bus.isOpen c = false := by
    intro c
    apply Bool.eq_false_iff.mpr
    intro hopen
    cases hclose.held c hopen with
    | field _ hread =>
        cases hread with
        | inl hnot =>
            rw [hsettled.closed] at hnot
            cases hnot
        | inr hchannel =>
            obtain ⟨channel, hchannel⟩ := hchannel
            rw [hsettled.closing] at hchannel
            cases hchannel
    | closing hclosing =>
        rw [hsettled.closing] at hclosing
        cases hclosing
    | loop loop hmem _ =>
        rw [hsettled.loops] at hmem
        cases hmem
  have hchannels : ∀ ch, (bus.channels ch).isOpen = false := by
    intro ch
    apply Bool.eq_false_iff.mpr
    intro hopen
    have hconnection : bus.isOpen (bus.channels ch).connection = true := hsound.isOpen ch hopen
    rw [hconnections] at hconnection
    cases hconnection
  have hconnected := hclose.connected hsettled.closed
  refine ⟨hconnections, hchannels, fun ch => hsound.consumers ch (hchannels ch), hconnected, ?_,
    fun eventName => ?_⟩
  · rw [dispatchThrows, hconnected]
    rfl
  · rw [on, if_pos hsettled.closed]

namespace Sample

def settled (bus : Bus) : Bool :=
  bus.closed && bus.closing.isNone && bus.loops.isEmpty && bus.setups.isEmpty

theorem settled_iff {bus : Bus} : settled bus = true ↔ bus.Settled := by
  simp only [settled, Bool.and_eq_true, Option.isNone_iff_eq_none, List.isEmpty_iff]
  constructor
  · intro h
    exact ⟨h.1.1.1, h.1.1.2, h.1.2, h.2⟩
  · intro h
    exact ⟨⟨⟨h.closed, h.closing⟩, h.loops⟩, h.setups⟩

/-- A reconnection that has its connection when `close()` is called. -/
theorem final_of_run_reconnecting :
    ∃ bus, Machine.Run (step {}) (Contained {}) {} bus ∧ bus.Settled ∧ bus.Final {} := by
  have hplay : (Machine.playMeeting (step {}) (Contained {})
      ([.on "OrderPlaced", .connect] ++ List.replicate 7 (.settle 0 .resolved) ++
        [.connectionCloses 0, .settle 0 .resolved, .close, .settleClose, .settleClose,
          .settle 0 (.rejected false)]) {}).map settled = some true := by decide +kernel
  obtain ⟨bus, hbus, hsettled⟩ := Option.map_eq_some_iff.mp hplay
  have hrun := Machine.run_of_playMeeting hbus
  exact ⟨bus, hrun, settled_iff.mp hsettled, final_of_run hrun (settled_iff.mp hsettled)⟩

/-- `close()` finds nothing to close while `connect()` awaits its connection, which then
stays open. -/
theorem final_connecting :
    ¬ ∀ (resilience : Resilience) (bus : Bus), Machine.Reaches (step resilience) {} bus →
      bus.Settled → bus.Final resilience := by
  intro hall
  have hplay : (Machine.play (step {})
      ([.connect, .close] ++ List.replicate 4 (.settle 0 .resolved)) {}).map
        (fun bus => (settled bus, bus.isOpen 0)) = some (true, true) := by decide +kernel
  obtain ⟨bus, hbus, hstate⟩ := Option.map_eq_some_iff.mp hplay
  obtain ⟨hsettled, hopen⟩ := Prod.mk.inj hstate
  have hrun := Machine.run_of_play (C := fun _ _ => True) (fun _ _ _ => trivial) hbus
  have hclosed := (hall {} bus hrun (settled_iff.mp hsettled)).connections 0
  rw [hopen] at hclosed
  cases hclosed

end Sample

end Bus

end Noddde.Brokers.RabbitMqEventBus
