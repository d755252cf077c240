import Noddde.Brokers.RabbitMqConnect
/-!
# The attempts of connect()

Each attempt that fails leaves no open connection and no listener behind, so the loop goes
from one quiet bus to the next until an attempt succeeds, meets another exchange type, or is
the last.
-/

namespace Noddde.Brokers.RabbitMqEventBus.ConnectAttempts

variable {X : Type}

/-! ## What the resilience promises -/

/-- How an attempt ends: with the first of its promises that rejects, if any does. -/
def attemptOutcome (config : ConnectConfig) (message : X → String) (answers : Answers X) :
    List Await → Except (ConnectError X) Unit
  | [] => .ok ()
  | await :: rest =>
      match answers await with
      | .ok () => attemptOutcome config message answers rest
      | .error e => .error (await.error config message e)

def outcome (config : ConnectConfig) (message : X → String) (handlers : List String)
    (answers : Answers X) : Except (ConnectError X) Unit :=
  attemptOutcome config message answers (.connect :: setupAwaits config handlers)

def Retriable (outcome : Except (ConnectError X) Unit) : Prop :=
  ∃ e, outcome = .error e ∧ e.isMismatch = false

/-- The documented meaning of `maxAttempts`. -/
def Allowed (config : ConnectConfig) (attempt : Nat) : Prop :=
  maxAttempts config = -1 ∨ (attempt : Int) < maxAttempts config

/-- The connection is closed, and its end and that of its channels are not listened for. -/
def Released (bus : Bus) (connection : Nat) : Prop :=
  bus.isOpen connection = false ∧ (bus.connections connection).listening = false ∧
    ∀ channel, (bus.channels channel).connection = connection →
      (bus.channels channel).listening = false

structure Obeys (config : ConnectConfig) (message : X → String) (handlers : List String)
    (answers : Nat → Answers X) (connected : Connected X) : Prop where
  resolves : connected.outcome = .ok () ↔
    ∃ k, Allowed config k ∧ outcome config message handlers (answers k) = .ok () ∧
      ∀ j < k, Retriable (outcome config message handlers (answers j))
  /-- An attempt is made only behind failures that can be retried. -/
  stops : ∀ k, k + 1 < connected.attempts →
    Retriable (outcome config message handlers (answers k))
  rejects : ∀ error, connected.outcome = .error error →
    ∃ k e, connected.attempts = k + 1 ∧ error = some e ∧
      outcome config message handlers (answers k) = .error e ∧
      (e.isMismatch = true ∨ maxAttempts config = k + 1)
  releases : ∀ connection,
    (connected.outcome = .ok () ∧ connection + 1 = connected.bus.connectionsMade) ∨
      Released connected.bus connection
  /-- No reconnection is underway. -/
  settled : connected.bus.loops = []

/-! ## A quiet bus -/

/-- Nothing is listened for, no connection is open but the given one, and no loop runs in the
background. -/
structure Quiet (handlers : List String) (opened : Option Nat) (bus : Bus) : Prop where
  connections : ∀ c, (bus.connections c).listening = false
  channels : ∀ ch, (bus.channels ch).listening = false
  closed : ∀ c, bus.isOpen c = true → opened = some c
  connection : ∀ c, bus.connection = some c → opened = some c
  channel : ∀ ch, bus.channel = some ch → opened = some (bus.channels ch).connection
  loops : bus.loops = []
  handlers : bus.handlers = handlers

variable (config : ConnectConfig) (message : X → String) {handlers : List String}
  {opened : Option Nat} {bus : Bus}

theorem quiet_updateChannel (h : Quiet handlers opened bus) (ch : Nat)
    {f : ChannelObject → ChannelObject} (hf : ∀ object, (f object).listening = object.listening)
    (hconnection : ∀ object, (f object).connection = object.connection) :
    Quiet handlers opened (bus.updateChannel ch f) := by
  refine ⟨h.connections, fun other => ?_, h.closed, h.connection, fun other hother => ?_,
    h.loops, h.handlers⟩
  · simp only [Bus.updateChannel, Function.update_apply]
    split_ifs
    · rw [hf, h.channels]
    · exact h.channels other
  · simp only [Bus.updateChannel, Function.update_apply]
    split_ifs with heq
    · rw [hconnection, ← heq]
      exact h.channel other hother
    · exact h.channel other hother

theorem quiet_addChannel {c : Nat} (h : Quiet handlers (some c) bus) :
    Quiet handlers (some c) (bus.addChannel c) := by
  refine ⟨h.connections, fun other => ?_, h.closed, h.connection, fun other hother => ?_,
    h.loops, h.handlers⟩
  · simp only [Bus.addChannel, Function.update_apply]
    split_ifs
    · rfl
    · exact h.channels other
  · obtain rfl := Option.some.inj hother
    simp [Bus.addChannel]

theorem quiet_addConnection (h : Quiet handlers none bus) :
    Quiet handlers (some bus.connectionsMade) bus.addConnection := by
  refine ⟨fun c => ?_, h.channels, fun c hc => ?_, fun _ => id, fun ch hch => ?_, h.loops,
    h.handlers⟩
  · simp only [Bus.addConnection, Function.update_apply]
    split_ifs
    · rfl
    · exact h.connections c
  · simp only [Bus.isOpen, Bus.addConnection, Function.update_apply] at hc
    split_ifs at hc with heq
    · rw [heq]
    · cases h.closed c hc
  · cases h.channel ch hch

/-- What is awaited behind `amqplib.connect` opens no other connection. -/
theorem quiet_resolve (h : Quiet handlers opened bus) {await : Await} (hawait : await ≠ .connect) :
    Quiet handlers opened (await.resolve bus) ∧
      (await.resolve bus).connectionsMade = bus.connectionsMade := by
  cases await with
  | connect => exact absurd rfl hawait
  | createConfirmChannel =>
      simp only [Await.resolve]
      cases hconnection : bus.connection with
      | none => exact ⟨h, rfl⟩
      | some c =>
          obtain rfl := h.connection c hconnection
          exact ⟨quiet_addChannel h, rfl⟩
  | prefetch | assertExchange => exact ⟨h, rfl⟩
  | setupConsumer eventName step =>
      cases step with
      | consume =>
          simp only [Await.resolve]
          cases bus.channel with
          | none => exact ⟨h, rfl⟩
          | some ch =>
              refine ⟨quiet_updateChannel h ch (fun object => ?_) fun object => ?_, rfl⟩
              all_goals
                unfold ChannelObject.addConsumer
                split_ifs <;> rfl
      | assertDeadLetterExchange | assertDeadLetterQueue | bindDeadLetterQueue | assertQueue
      | bindQueue => exact ⟨h, rfl⟩

theorem connect_not_mem_setupAwaits (handlers : List String) :
    .connect ∉ setupAwaits config handlers := by
  simp [setupAwaits]

theorem setUp_fst (answers : Answers X) (awaits : List Await) (bus : Bus) :
    (setUp config message answers awaits bus).1 =
      attemptOutcome config message answers awaits := by
  induction awaits generalizing bus with
  | nil => rfl
  | cons await rest ih =>
      simp only [setUp, attemptOutcome]
      cases answers await with
      | ok _ => exact ih _
      | error e => rfl

theorem quiet_setUp (answers : Answers X) {awaits : List Await} (hawaits : .connect ∉ awaits)
    (h : Quiet handlers opened bus) :
    Quiet handlers opened (setUp config message answers awaits bus).2 ∧
      (setUp config message answers awaits bus).2.connectionsMade = bus.connectionsMade := by
  induction awaits generalizing bus with
  | nil => exact ⟨h, rfl⟩
  | cons await rest ih =>
      obtain ⟨hawait, hrest⟩ := not_or.mp (mt List.mem_cons.mpr hawaits)
      simp only [setUp]
      cases answers await with
      | ok _ =>
          obtain ⟨hresolve, hmade⟩ := quiet_resolve h (Ne.symm hawait)
          rw [← hmade]
          exact ih hrest hresolve
      | error e => exact ⟨h, rfl⟩

/-- A connection that closes unheard takes nothing with it but its channels. -/
theorem quiet_cleanUp (h : Quiet handlers opened bus) :
    Quiet handlers none (cleanUp opened bus) := by
  cases opened with
  | none =>
      refine ⟨h.connections, h.channels, h.closed, fun c hc => ?_, fun ch hch => ?_, h.loops,
        h.handlers⟩
      · cases hc
      · cases hch
  | some c =>
      have hheard : bus.heard c = false := by
        simp [Bus.heard, h.connections, h.channels]
      simp only [cleanUp, Option.elim_some, hheard, Bus.notify, Bool.false_and,
        Bool.false_eq_true, if_false]
      refine ⟨fun other => ?_, fun ch => ?_, fun other hother => ?_, fun other hother => ?_,
        fun ch hch => ?_, h.loops, h.handlers⟩
      · simp only [Bus.closeConnection, Bus.updateConnection, Function.update_apply]
        split_ifs
        · exact h.connections c
        · exact h.connections other
      · simp only [Bus.closeConnection]
        split_ifs
        · exact h.channels ch
        · exact h.channels ch
      · simp only [Bus.isOpen, Bus.closeConnection, Bus.updateConnection, Function.update_apply,
          ConnectionObject.close] at hother
        split_ifs at hother with heq
        exact absurd (Option.some.inj (h.closed other hother)).symm heq
      · cases hother
      · cases hch

/-! ## One attempt -/

/-- What an attempt that succeeds leaves behind: only its own connection is in use. -/
structure InUse (bus : Bus) : Prop where
  releases : ∀ c, c + 1 = bus.connectionsMade ∨ Released bus c
  loops : bus.loops = []

theorem released_of_quiet (h : Quiet handlers opened bus) {c : Nat} (hc : opened ≠ some c) :
    Released bus c := by
  refine ⟨?_, h.connections c, fun ch _ => h.channels ch⟩
  exact Bool.eq_false_iff.mpr fun hopen => hc (h.closed c hopen)

theorem inUse_established {c : Nat} (h : Quiet handlers (some c) bus)
    (hmade : bus.connectionsMade = c + 1) : InUse (established c bus) := by
  have hloops : (established c bus).loops = [] ∧
      (established c bus).connectionsMade = c + 1 := by
    simp only [established]
    cases (bus.updateConnection c .listen).channel <;> exact ⟨h.loops, hmade⟩
  refine ⟨fun other => ?_, hloops.1⟩
  by_cases heq : other = c
  · exact .inl (by rw [hloops.2, heq])
  · obtain ⟨hopen, hlistening, hchannels⟩ :=
      released_of_quiet h (fun hsome => heq (Option.some.inj hsome).symm)
    have hconnection : (established c bus).connections other = bus.connections other := by
      simp only [established]
      cases (bus.updateConnection c .listen).channel <;>
        exact Function.update_of_ne heq _ _
    refine .inr ⟨?_, ?_, fun ch hch => ?_⟩
    · rw [Bus.isOpen, hconnection]
      exact hopen
    · rw [hconnection]
      exact hlistening
    · simp only [established] at hch ⊢
      cases hchannel : (bus.updateConnection c .listen).channel with
      | none => exact h.channels ch
      | some current =>
          rw [hchannel] at hch
          simp only [Option.elim_some, Bus.updateChannel, Function.update_apply] at hch ⊢
          split_ifs at hch ⊢ with hsame
          · -- the channel of the attempt is one of its connection
            have hof := Option.some.inj (h.channel current hchannel)
            exact absurd (hch.symm.trans hof.symm) heq
          · exact h.channels ch

theorem attemptOnce_fst (answers : Answers X) (hhandlers : bus.handlers = handlers) :
    (attemptOnce config message answers bus).1 = outcome config message handlers answers := by
  simp only [attemptOnce, outcome, attemptOutcome]
  cases answers .connect with
  | error e => rfl
  | ok _ =>
      rw [← hhandlers, ← setUp_fst config message answers _ (Await.connect.resolve bus)]
      rcases setUp config message answers (setupAwaits config bus.handlers)
        (Await.connect.resolve bus) with ⟨_ | _, bus'⟩ <;> rfl

/-- A failure leaves the bus as quiet as it was, a success leaves one connection. -/
theorem attemptOnce_snd (answers : Answers X) (h : Quiet handlers none bus) :
    match (attemptOnce config message answers bus).1 with
    | .ok () => InUse (attemptOnce config message answers bus).2
    | .error _ => Quiet handlers none (attemptOnce config message answers bus).2 := by
  simp only [attemptOnce]
  cases answers .connect with
  | error e => exact quiet_cleanUp h
  | ok _ =>
      obtain ⟨hquiet, hmade⟩ := quiet_setUp config message answers
        (connect_not_mem_setupAwaits config bus.handlers) (quiet_addConnection h)
      simp only [Await.resolve]
      rcases hsetUp : setUp config message answers (setupAwaits config bus.handlers)
        bus.addConnection with ⟨_ | _, bus'⟩
      · rw [hsetUp] at hquiet
        exact quiet_cleanUp hquiet
      · rw [hsetUp] at hquiet hmade
        exact inUse_established hquiet hmade

/-! ## The loop -/

/-- The attempts from one on, of which so many are left, behind an error: how they end, and at
which attempt. -/
inductive Tries (outcomeOf : Nat → Except (ConnectError X) Unit) :
    Nat → Nat → Option (ConnectError X) → Except (Option (ConnectError X)) Unit → Nat → Prop where
  | exhausted {attempt : Nat} {lastError : Option (ConnectError X)} :
      Tries outcomeOf 0 attempt lastError (.error lastError) attempt
  | succeeded {remaining attempt : Nat} {lastError : Option (ConnectError X)} :
      outcomeOf attempt = .ok () →
      Tries outcomeOf (remaining + 1) attempt lastError (.ok ()) (attempt + 1)
  | mismatched {remaining attempt : Nat} {lastError : Option (ConnectError X)}
      {e : ConnectError X} :
      outcomeOf attempt = .error e → e.isMismatch = true →
      Tries outcomeOf (remaining + 1) attempt lastError (.error (some e)) (attempt + 1)
  | failed {remaining attempt attempts : Nat} {lastError : Option (ConnectError X)}
      {e : ConnectError X} {result : Except (Option (ConnectError X)) Unit} :
      outcomeOf attempt = .error e → e.isMismatch = false →
      Tries outcomeOf remaining (attempt + 1) (some e) result attempts →
      Tries outcomeOf (remaining + 1) attempt lastError result attempts

theorem connectWithRetry_tries (answers : Nat → Answers X) (remaining attempt : Nat)
    (lastError : Option (ConnectError X)) (delays : List Nat) (h : Quiet handlers none bus) :
    let connected := connectWithRetry config message answers remaining attempt lastError delays bus
    Tries (fun k => outcome config message handlers (answers k)) remaining attempt lastError
        connected.outcome connected.attempts ∧
      match connected.outcome with
      | .ok () => InUse connected.bus
      | .error _ => Quiet handlers none connected.bus := by
  induction remaining generalizing attempt lastError delays bus with
  | zero => exact ⟨.exhausted, h⟩
  | succ remaining ih =>
      have hfst := attemptOnce_fst config message (answers attempt) h.handlers
      have hsnd := attemptOnce_snd config message (answers attempt) h
      simp only [connectWithRetry]
      rcases hattempt : attemptOnce config message (answers attempt) bus with ⟨e | _, bus'⟩
      · rw [hattempt] at hfst hsnd
        by_cases hmismatch : e.isMismatch = true
        · simp only [if_pos hmismatch]
          exact ⟨.mismatched hfst.symm hmismatch, hsnd⟩
        · simp only [if_neg hmismatch]
          obtain ⟨htries, hbus⟩ := ih (attempt + 1) (some e) _ hsnd
          exact ⟨.failed hfst.symm (Bool.eq_false_iff.mpr hmismatch) htries, hbus⟩
      · rw [hattempt] at hfst hsnd
        exact ⟨.succeeded hfst.symm, hsnd⟩

namespace Tries

variable {outcomeOf : Nat → Except (ConnectError X) Unit} {remaining attempt attempts : Nat}
  {lastError : Option (ConnectError X)} {result : Except (Option (ConnectError X)) Unit}

theorem retriable (h : Tries outcomeOf remaining attempt lastError result attempts) {k : Nat}
    (hk : attempt ≤ k) (hnext : k + 1 < attempts) : Retriable (outcomeOf k) := by
  induction h with
  | exhausted | succeeded | mismatched => omega
  | failed hfailed hmismatch _ ih =>
      rcases Nat.eq_or_lt_of_le hk with rfl | hlt
      · exact ⟨_, hfailed, hmismatch⟩
      · exact ih hlt hnext

theorem of_ok (h : Tries outcomeOf remaining attempt lastError (.ok ()) attempts) :
    ∃ k, attempts = k + 1 ∧ k < attempt + remaining ∧ outcomeOf k = .ok () := by
  generalize hresult : (.ok () : Except (Option (ConnectError X)) Unit) = result at h
  induction h with
  | exhausted | mismatched => cases hresult
  | succeeded hok => exact ⟨_, rfl, by omega, hok⟩
  | failed _ _ _ ih =>
      obtain ⟨k, hattempts, hlt, hok⟩ := ih hresult
      exact ⟨k, hattempts, by omega, hok⟩

/-- The attempts come to a success that has only such failures before it. -/
theorem ok_of_success (h : Tries outcomeOf remaining attempt lastError result attempts) {k : Nat}
    (hk : attempt ≤ k) (hlt : k < attempt + remaining) (hok : outcomeOf k = .ok ())
    (hbefore : ∀ j, attempt ≤ j → j < k → Retriable (outcomeOf j)) : result = .ok () := by
  induction h with
  | exhausted => omega
  | succeeded _ => rfl
  | @mismatched _ attempt _ e hfailed hmismatch =>
      rcases Nat.eq_or_lt_of_le hk with rfl | hlater
      · cases hok.symm.trans hfailed
      · obtain ⟨e', hfailed', hretriable⟩ := hbefore attempt (Nat.le_refl _) hlater
        obtain rfl := Except.error.inj (hfailed'.symm.trans hfailed)
        simp [hmismatch] at hretriable
  | failed hfailed _ _ ih =>
      rcases Nat.eq_or_lt_of_le hk with rfl | hlater
      · cases hok.symm.trans hfailed
      · exact ih hlater (by omega) fun j hj => hbefore j (Nat.le_of_succ_le hj)

theorem of_error {error : Option (ConnectError X)}
    (h : Tries outcomeOf remaining attempt lastError (.error error) attempts) :
    (remaining = 0 ∧ error = lastError) ∨
      ∃ k e, attempts = k + 1 ∧ error = some e ∧ outcomeOf k = .error e ∧
        (e.isMismatch = true ∨ k + 1 = attempt + remaining) := by
  generalize hresult : (.error error : Except (Option (ConnectError X)) Unit) = result at h
  induction h with
  | exhausted => exact .inl ⟨rfl, Except.error.inj hresult⟩
  | succeeded => cases hresult
  | mismatched hfailed hmismatch =>
      exact .inr ⟨_, _, rfl, Except.error.inj hresult, hfailed, .inl hmismatch⟩
  | @failed remaining attempt _ _ e _ hfailed _ htries ih =>
      rcases ih hresult with ⟨rfl, rfl⟩ | ⟨k, e', hattempts, herror, hfailed', hend⟩
      · cases htries
        exact .inr ⟨attempt, e, rfl, rfl, hfailed, .inr rfl⟩
      · exact .inr ⟨k, e', hattempts, herror, hfailed', hend.imp_right fun heq => by omega⟩

end Tries

/-! ## connect() -/

theorem quiet_init (handlers : List String) : Quiet handlers none { handlers } := by
  refine ⟨fun _ => rfl, fun _ => rfl, fun c hc => ?_, fun c hc => ?_, fun ch hch => ?_, rfl, rfl⟩
  · cases hc
  · cases hc
  · cases hch

theorem obeys_of_pos (answers : Nat → Answers X) (h : 1 ≤ maxAttempts config) :
    Obeys config message handlers answers (connect config message answers { handlers }) := by
  obtain ⟨htries, hbus⟩ := connectWithRetry_tries config message answers
    (maxAttempts config).toNat 0 none [] (quiet_init handlers)
  have hallowed : ∀ k, Allowed config k ↔ k < 0 + (maxAttempts config).toNat := by
    intro k
    unfold Allowed
    omega
  have hconnect : connect config message answers { handlers } =
      connectWithRetry config message answers (maxAttempts config).toNat 0 none []
        { handlers } := rfl
  rw [← hconnect] at htries hbus
  refine ⟨⟨fun hok => ?_, ?_⟩, fun k hk => htries.retriable (Nat.zero_le k) hk, ?_, ?_, ?_⟩
  · rw [hok] at htries
    obtain ⟨k, hattempts, hlt, hsuccess⟩ := htries.of_ok
    exact ⟨k, (hallowed k).mpr hlt, hsuccess, fun j hj =>
      htries.retriable (Nat.zero_le j) (by omega)⟩
  · rintro ⟨k, hk, hsuccess, hbefore⟩
    exact htries.ok_of_success (Nat.zero_le k) ((hallowed k).mp hk) hsuccess fun j _ => hbefore j
  · intro error herror
    rw [herror] at htries
    rcases htries.of_error with ⟨hzero, -⟩ | ⟨k, e, hattempts, rfl, hfailed, hend⟩
    · omega
    · exact ⟨k, e, hattempts, rfl, hfailed, hend.imp_right fun heq => by omega⟩
  · intro c
    cases hresult : (connect config message answers { handlers }).outcome with
    | ok _ =>
        rw [hresult] at hbus
        exact (hbus.releases c).imp_left fun hlast => ⟨rfl, hlast⟩
    | error e =>
        rw [hresult] at hbus
        exact .inr (released_of_quiet hbus (by simp))
  · cases hresult : (connect config message answers { handlers }).outcome with
    | ok _ =>
        rw [hresult] at hbus
        exact hbus.loops
    | error e =>
        rw [hresult] at hbus
        exact hbus.loops

/-- The loop with `-1` makes no attempt, and throws an error that it has not met. -/
theorem obeys_iff (handlers : List String) (answers : Nat → Answers X)
    (h : 1 ≤ maxAttempts config ∨ maxAttempts config = -1) :
    Obeys config message handlers answers (connect config message answers { handlers }) ↔
      maxAttempts config ≠ -1 := by
  constructor
  · intro hobeys hinfinite
    have hconnect : (connect config message answers { handlers }).outcome = .error none := by
      simp [connect, hinfinite, connectWithRetry]
    obtain ⟨k, e, -, hnone, -⟩ := hobeys.rejects none hconnect
    cases hnone
  · intro hfinite
    exact obeys_of_pos config message answers (h.resolve_right hfinite)

namespace Sample

/-- The first attempt cannot create its channel; all later ones succeed. -/
def answers : Nat → Answers String
  | 0, .createConfirmChannel => .error "ECONNRESET"
  | _, _ => .ok ()

theorem obeys_default :
    Obeys {} id ["Deposited"] answers (connect {} id answers { handlers := ["Deposited"] }) :=
  (obeys_iff {} id ["Deposited"] answers (.inl (by decide))).mpr (by decide)

theorem not_obeys_infinite :
    ¬ ∀ (config : ConnectConfig) (message : String → String) (handlers : List String)
      (answers : Nat → Answers String),
      1 ≤ maxAttempts config ∨ maxAttempts config = -1 →
      Obeys config message handlers answers (connect config message answers { handlers }) := by
  intro hall
  have hobeys := hall { maxAttempts := some (-1) } id [] (fun _ _ => .ok ()) (.inr rfl)
  obtain ⟨k, e, -, hnone, -⟩ := hobeys.rejects none rfl
  cases hnone

end Sample

end Noddde.Brokers.RabbitMqEventBus.ConnectAttempts
