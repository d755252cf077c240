import Noddde.Brokers.RabbitMqConsumer
import Noddde.Proofs.FanOut
/-!
# Order among the deliveries of an aggregate

The promise chain of an aggregate lets the handlers of one delivery at a time run, in the
order of the deliveries, and is dropped once it has drained.
-/

namespace Noddde.Brokers.RabbitMqEventBus

variable (N : Type) [Json.Number N]

namespace Delivery

def key (delivery : Delivery) : Option JsString := peekAggregateId N delivery.message.content

/-- `metadata.aggregateId` of the body. -/
def id (delivery : Delivery) : Option (Json N) := aggregateId N delivery.message.content

def Begun (delivery : Delivery) : Prop := ∀ prior, delivery.phase ≠ .waiting prior

def Processed (delivery : Delivery) : Prop := ∃ verdict, delivery.phase = .processed verdict

/-- It is processed, and no handler that was called for it still runs. -/
def Ended (delivery : Delivery) : Prop :=
  delivery.Processed ∧ ∀ promise ∈ delivery.call.promises, promise.settled = true

theorem Processed.begun {delivery : Delivery} (h : delivery.Processed) : delivery.Begun := by
  obtain ⟨verdict, h⟩ := h
  intro prior hwaiting
  rw [h] at hwaiting
  cases hwaiting

end Delivery

/-- A call that ends the loop over the handlers leaves nothing under way. -/
def LeavesNothing (handlers : List Handler) : Prop :=
  (callAll handlers).2.isSome → ∀ promise ∈ (callAll handlers).1, promise.settled = true

namespace Consumer

variable {N}
variable {maxRetries : Option Nat} {s t : Consumer} {d e : Nat} {D D' E : Delivery}

theorem isProcessed_iff : s.isProcessed d = true ↔
    ∃ D, s.deliveries d = some D ∧ D.Processed := by
  unfold isProcessed Delivery.Processed
  cases hdelivery : s.deliveries d with
  | none => simp
  | some D => cases hphase : D.phase <;> simp [hphase]

/-! ## What a step does -/

section Specs

variable {handlers : List Handler}

theorem start_spec (hstep : step N maxRetries s (.start d handlers) = some t) :
    ∃ D prior, s.deliveries d = some D ∧ D.phase = .waiting prior ∧
      prior.all s.isProcessed = true ∧ t = s.processDelivery N maxRetries d D handlers := by
  simp only [step, Option.bind_eq_bind, Option.bind_eq_some_iff] at hstep
  obtain ⟨D, hD, hstep⟩ := hstep
  cases hphase : D.phase with
  | waiting prior =>
      rw [hphase] at hstep
      simp only at hstep
      split_ifs at hstep with hready
      exact ⟨D, prior, hD, hphase, hready, (Option.some.inj hstep).symm⟩
  | handling | processed =>
      rw [hphase] at hstep
      cases hstep

theorem handle_spec {action : Brokers.Action}
    (hstep : step N maxRetries s (.handle d action) = some t) :
    ∃ D event call, s.deliveries d = some D ∧
      (Json.parse D.message.content : Option (Json N)) = some event ∧
      RabbitMqEventBus.step N event D.call action = some call ∧ D.Begun ∧
      t = s.set d { D with call } := by
  simp only [step, Option.bind_eq_bind, Option.bind_eq_some_iff] at hstep
  obtain ⟨D, hD, event, hparse, call, hcall, hstep⟩ := hstep
  refine ⟨D, event, call, hD, hparse, hcall, ?_⟩
  cases hphase : D.phase with
  | waiting prior =>
      rw [hphase] at hstep
      cases hstep
  | handling | processed =>
      rw [hphase] at hstep
      refine ⟨fun prior hwaiting => ?_, (Option.some.inj hstep).symm⟩
      rw [hphase] at hwaiting
      cases hwaiting

theorem finish_spec (hstep : step N maxRetries s (.finish d) = some t) :
    ∃ D outcome, s.deliveries d = some D ∧ D.call.outcome = some outcome ∧
      D.phase = .handling ∧ t = s.finish maxRetries d D outcome := by
  simp only [step, Option.bind_eq_bind, Option.bind_eq_some_iff] at hstep
  obtain ⟨D, hD, outcome, houtcome, hstep⟩ := hstep
  split_ifs at hstep with hphase
  exact ⟨D, outcome, hD, houtcome, hphase, (Option.some.inj hstep).symm⟩

/-- The callback returns, and drops the chain if the delivery is its last link. -/
theorem leave_spec (hstep : step N maxRetries s (.leave d) = some t) :
    ∃ D, s.deliveries d = some D ∧ D.Processed ∧
      ((∀ key, D.key N = some key → s.aggregateChains key ≠ some d) ∧
          t = s.set d { D with returned := true } ∨
        ∃ key, D.key N = some key ∧ s.aggregateChains key = some d ∧
          t = ({ s with
            aggregateChains := Function.update s.aggregateChains key none } : Consumer).set d
              { D with returned := true }) := by
  simp only [step, Option.bind_eq_bind, Option.bind_eq_some_iff] at hstep
  obtain ⟨D, hD, hstep⟩ := hstep
  split_ifs at hstep with hleaves
  obtain ⟨P, hP, hprocessed⟩ := isProcessed_iff.mp hleaves.1
  obtain rfl := Option.some.inj (hD.symm.trans hP)
  refine ⟨D, hD, hprocessed, ?_⟩
  unfold Delivery.key
  cases hkey : peekAggregateId N D.message.content with
  | none =>
      rw [hkey] at hstep
      exact .inl ⟨nofun, (Option.some.inj hstep).symm⟩
  | some key =>
      rw [hkey] at hstep
      simp only at hstep
      split_ifs at hstep with hchain
      · exact .inr ⟨key, rfl, hchain, (Option.some.inj hstep).symm⟩
      · refine .inl ⟨fun other heq => ?_, (Option.some.inj hstep).symm⟩
        obtain rfl := Option.some.inj heq
        exact hchain

end Specs

/-! ## The invariant -/

variable (N) in
/-- Every delivery before `e` that shares its chain has ended. -/
def Clear (s : Consumer) (e : Nat) (E : Delivery) : Prop :=
  ∀ d D, d < e → s.deliveries d = some D → D.key N = E.key N → (E.key N).isSome → D.Ended

variable (N) in
structure Inv (s : Consumer) : Prop where
  bound : ∀ d D, s.deliveries d = some D → d < s.arrived
  last : ∀ key d, s.aggregateChains key = some d →
    ∃ D, s.deliveries d = some D ∧ D.key N = some key ∧ D.returned = false ∧
      ∀ e E, s.deliveries e = some E → E.key N = some key → e ≤ d
  free : ∀ key, s.aggregateChains key = none →
    ∀ d D, s.deliveries d = some D → D.key N = some key → D.Ended
  waits : ∀ e E p, s.deliveries e = some E → E.phase = .waiting (some p) →
    ∃ P, s.deliveries p = some P ∧ p < e ∧ P.key N = E.key N ∧ (P.Processed ∨ P.id N = E.id N) ∧
      ∀ d D, d < e → s.deliveries d = some D → D.key N = E.key N → d ≤ p
  heads : ∀ e E, s.deliveries e = some E → E.phase = .waiting none → s.Clear N e E
  begun : ∀ e E, s.deliveries e = some E → E.Begun → s.Clear N e E
  chained : ∀ e E prior, s.deliveries e = some E → E.phase = .waiting prior →
    (E.key N).isSome ∧ E.call.promises = []
  settled : ∀ d D, s.deliveries d = some D → (D.key N).isSome → D.Processed ∨
    D.call.outcome.isSome → ∀ promise ∈ D.call.promises, promise.settled = true
  live : ∀ d D, s.deliveries d = some D → D.phase = .handling →
    (Json.parse D.message.content : Option (Json N)) = none → D.call.outcome.isSome
  returned : ∀ d D, s.deliveries d = some D → D.returned = true → D.Processed
  nodup : s.started.Nodup
  started : ∀ d, d ∈ s.started ↔ ∃ D, s.deliveries d = some D ∧ D.Begun
  printable : ∀ d D, s.deliveries d = some D → (D.id N).isSome → (D.key N).isSome

theorem inv_init : Inv N {} := by
  constructor
  all_goals first
    | exact List.nodup_nil
    | (intro d; simp [started])

theorem Delivery.key_congr (h : D'.message = D.message) : D'.key N = D.key N := by
  rw [Delivery.key, Delivery.key, h]

theorem Delivery.id_congr (h : D'.message = D.message) : D'.id N = D.id N := by
  rw [Delivery.id, Delivery.id, h]

/-- Every delivery is an old one, or the one that has been written. -/
theorem back_of_update (h : t.deliveries = Function.update s.deliveries d (some D))
    (he : t.deliveries e = some E) : (e = d ∧ E = D) ∨ (e ≠ d ∧ s.deliveries e = some E) := by
  by_cases hd : e = d
  · subst hd
    rw [h, Function.update_self] at he
    exact .inl ⟨rfl, (Option.some.inj he).symm⟩
  · rw [h, Function.update_of_ne hd] at he
    exact .inr ⟨hd, he⟩

/-- What is true of the delivery that has been written, and of all old ones. -/
theorem forall_of_update {Q : Nat → Delivery → Prop}
    (h : t.deliveries = Function.update s.deliveries d (some D)) (hnew : Q d D)
    (hold : ∀ e E, s.deliveries e = some E → Q e E) (he : t.deliveries e = some E) : Q e E := by
  cases back_of_update h he with
  | inl heq =>
      obtain ⟨rfl, rfl⟩ := heq
      exact hnew
  | inr hother => exact hold e E hother.2

structure Replaces (s t : Consumer) (d : Nat) (D D' : Delivery) : Prop where
  found : s.deliveries d = some D
  deliveries : t.deliveries = Function.update s.deliveries d (some D')
  arrived : t.arrived = s.arrived
  message : D'.message = D.message
  ended : D.Ended → D'.Ended
  processed : D.Processed → D'.Processed

namespace Replaces

variable (h : Replaces s t d D D')
include h

theorem self : t.deliveries d = some D' := by
  rw [h.deliveries, Function.update_self]

theorem other (hne : e ≠ d) : t.deliveries e = s.deliveries e := by
  rw [h.deliveries, Function.update_of_ne hne]

theorem back (he : t.deliveries e = some E) :
    (e = d ∧ E = D') ∨ (e ≠ d ∧ s.deliveries e = some E) :=
  back_of_update h.deliveries he

theorem forth (he : s.deliveries e = some E) :
    ∃ F, t.deliveries e = some F ∧ F.message = E.message ∧ (E.Processed → F.Processed) ∧
      (e ≠ d → F = E) := by
  by_cases hd : e = d
  · subst hd
    rw [h.found] at he
    cases he
    exact ⟨D', h.self, h.message, h.processed, fun hne => absurd rfl hne⟩
  · exact ⟨E, (h.other hd).trans he, rfl, fun hprocessed => hprocessed, fun _ => rfl⟩

theorem clear {F : Delivery} (hF : F.message = E.message) (hclear : s.Clear N e E) :
    t.Clear N e F := by
  intro c C hlt hC hkey hsome
  rw [Delivery.key_congr hF] at hkey hsome
  cases h.back hC with
  | inl heq =>
      obtain ⟨rfl, rfl⟩ := heq
      rw [Delivery.key_congr h.message] at hkey
      exact h.ended (hclear c D hlt h.found hkey hsome)
  | inr hold => exact hclear c C hlt hold.2 hkey hsome

/-- Nothing begins to wait. -/
theorem waiting (hphase : D'.phase = D.phase ∨ D'.Begun) {prior : Option Nat}
    (he : t.deliveries e = some E) (hp : E.phase = .waiting prior) :
    ∃ E₀, s.deliveries e = some E₀ ∧ E.message = E₀.message ∧ E₀.phase = .waiting prior := by
  cases h.back he with
  | inl heq =>
      obtain ⟨rfl, rfl⟩ := heq
      cases hphase with
      | inl hsame => exact ⟨D, h.found, h.message, hsame ▸ hp⟩
      | inr hbegun => exact absurd hp (hbegun _)
  | inr hold => exact ⟨E, hold.2, rfl, hp⟩

variable (hinv : Inv N s)
include hinv

/-- A delivery that has begun and begins to be something else is no new one. -/
theorem started (hD : D.Begun) (hD' : D'.Begun) (hstarted : t.started = s.started) (e : Nat) :
    e ∈ t.started ↔ ∃ E, t.deliveries e = some E ∧ E.Begun := by
  rw [hstarted]
  by_cases heq : e = d
  · subst heq
    rw [h.self]
    exact (hinv.started e).trans ⟨fun _ => ⟨_, rfl, hD'⟩, fun _ => ⟨D, h.found, hD⟩⟩
  · rw [h.other heq]
    exact hinv.started e

/-- The last link of a chain stays its last link. -/
theorem last (hchains : t.aggregateChains = s.aggregateChains)
    (hreturned : D'.returned = D.returned ∨
      D'.Processed ∧ ∀ key, s.aggregateChains key ≠ some d)
    (key : JsString) (he : t.aggregateChains key = some e) :
    ∃ E, t.deliveries e = some E ∧ E.key N = some key ∧ E.returned = false ∧
      ∀ c C, t.deliveries c = some C → C.key N = some key → c ≤ e := by
  rw [hchains] at he
  obtain ⟨E, hE, hEkey, hEreturned, hlast⟩ := hinv.last key e he
  obtain ⟨F, hF, hmessage, -, hother⟩ := h.forth hE
  refine ⟨F, hF, (Delivery.key_congr hmessage).trans hEkey, ?_, fun c C hC => ?_⟩
  · by_cases hd : e = d
    · subst hd
      obtain rfl := Option.some.inj (h.self.symm.trans hF)
      obtain rfl := Option.some.inj (h.found.symm.trans hE)
      cases hreturned with
      | inl hsame => rw [hsame, hEreturned]
      | inr hno => exact absurd he (hno.2 key)
    · rw [hother hd, hEreturned]
  · refine forall_of_update h.deliveries (fun hkey => ?_) hlast hC
    exact hlast d D h.found ((Delivery.key_congr h.message).symm.trans hkey)

theorem waits (hphase : D'.phase = D.phase ∨ D'.Begun) {prior : Nat}
    (he : t.deliveries e = some E) (hp : E.phase = .waiting (some prior)) :
    ∃ P, t.deliveries prior = some P ∧ prior < e ∧ P.key N = E.key N ∧
      (P.Processed ∨ P.id N = E.id N) ∧
      ∀ c C, c < e → t.deliveries c = some C → C.key N = E.key N → c ≤ prior := by
  obtain ⟨E₀, hE₀, hmessage, hp₀⟩ := h.waiting hphase he hp
  obtain ⟨P, hP, hlt, hPkey, hPid, hbetween⟩ := hinv.waits e E₀ prior hE₀ hp₀
  obtain ⟨F, hF, hFmessage, hFprocessed, -⟩ := h.forth hP
  refine ⟨F, hF, hlt, ?_, ?_, fun c C hc hC => ?_⟩
  · rw [Delivery.key_congr hFmessage, Delivery.key_congr hmessage, hPkey]
  · rw [Delivery.id_congr hFmessage, Delivery.id_congr hmessage]
    exact hPid.imp_left hFprocessed
  · rw [Delivery.key_congr hmessage]
    revert hc
    refine forall_of_update h.deliveries (fun hc hkey => ?_)
      (fun c C hC hc => hbetween c C hc hC) hC
    exact hbetween d D hc h.found ((Delivery.key_congr h.message).symm.trans hkey)

end Replaces

/-- The invariant survives the replacement of one delivery. -/
theorem inv_replace (hinv : Inv N s) (h : Replaces s t d D D')
    (hchains : t.aggregateChains = s.aggregateChains)
    (hphase : D'.phase = D.phase ∨ D'.Begun ∧ s.Clear N d D)
    (hreturned : D'.returned = D.returned ∨
      D'.Processed ∧ ∀ key, s.aggregateChains key ≠ some d)
    (hwaiting : ∀ prior, D'.phase = .waiting prior → D'.call = D.call)
    (hsettled : (D.key N).isSome → D'.Processed ∨ D'.call.outcome.isSome →
      ∀ promise ∈ D'.call.promises, promise.settled = true)
    (hlive : D'.phase = .handling →
      (Json.parse D'.message.content : Option (Json N)) = none → D'.call.outcome.isSome)
    (hnodup : t.started.Nodup)
    (hstarted : ∀ e, e ∈ t.started ↔ ∃ E, t.deliveries e = some E ∧ E.Begun) :
    Inv N t := by
  have hkey : D'.key N = D.key N := Delivery.key_congr h.message
  have hphase' := hphase.imp_right And.left
  constructor
  · intro e E he
    rw [h.arrived]
    exact forall_of_update h.deliveries (hinv.bound d D h.found) hinv.bound he
  · exact fun key e he => h.last hinv hchains hreturned key he
  · intro key hnone e E he
    rw [hchains] at hnone
    refine forall_of_update h.deliveries (fun hD'key => ?_) (hinv.free key hnone) he
    exact h.ended (hinv.free key hnone d D h.found (hkey ▸ hD'key))
  · exact fun e E p he hp => h.waits hinv hphase' he hp
  · intro e E he hnone
    obtain ⟨E₀, hE₀, hmessage, hnone⟩ := h.waiting hphase' he hnone
    exact h.clear hmessage (hinv.heads e E₀ hE₀ hnone)
  · intro e E he hbegun
    cases h.back he with
    | inl heq =>
        obtain ⟨rfl, rfl⟩ := heq
        refine h.clear h.message (hphase.elim (fun hsame => ?_) And.right)
        refine hinv.begun e D h.found fun prior => ?_
        rw [← hsame]
        exact hbegun prior
    | inr hold => exact h.clear rfl (hinv.begun e E hold.2 hbegun)
  · intro e E prior he hprior
    cases h.back he with
    | inl heq =>
        obtain ⟨rfl, rfl⟩ := heq
        rw [hkey, hwaiting prior hprior]
        refine hinv.chained e D prior h.found ?_
        exact hphase'.elim (fun hsame => hsame ▸ hprior) fun hbegun => absurd hprior (hbegun _)
    | inr hold => exact hinv.chained e E prior hold.2 hprior
  · intro e E he
    exact forall_of_update h.deliveries (fun hsome => hsettled (hkey ▸ hsome)) hinv.settled he
  · intro e E he
    exact forall_of_update h.deliveries hlive hinv.live he
  · intro e E he
    refine forall_of_update h.deliveries (fun hD' => ?_) hinv.returned he
    refine hreturned.elim (fun hsame => ?_) And.left
    exact h.processed (hinv.returned d D h.found (hsame ▸ hD'))
  · exact hnodup
  · exact hstarted
  · intro e E he
    refine forall_of_update h.deliveries (fun hid => ?_) hinv.printable he
    rw [Delivery.id_congr h.message] at hid
    rw [hkey]
    exact hinv.printable d D h.found hid

structure Arrives (N : Type) [Json.Number N] (s t : Consumer) (D : Delivery) : Prop where
  deliveries : t.deliveries = Function.update s.deliveries s.arrived (some D)
  arrived : t.arrived = s.arrived + 1
  returned : D.returned = false
  printable : (D.id N).isSome → (D.key N).isSome
  live : D.phase = .handling →
    (Json.parse D.message.content : Option (Json N)) = none → D.call.outcome.isSome

/-- It joins the chain of its aggregate, or it has none and begins. -/
inductive Joins (N : Type) [Json.Number N] (s t : Consumer) (D : Delivery) : Prop where
  | chain (key : JsString) : D.key N = some key →
      D.phase = .waiting (s.aggregateChains key) → D.call.promises = [] →
      t.aggregateChains = Function.update s.aggregateChains key (some s.arrived) →
      (∀ p P, s.aggregateChains key = some p → s.deliveries p = some P →
        P.Processed ∨ P.id N = D.id N) →
      t.started = s.started → Joins N s t D
  | none : D.key N = none → D.Begun → t.aggregateChains = s.aggregateChains →
      t.started = s.arrived :: s.started → Joins N s t D

/-- A new link at the end of the chain of its aggregate; the other chains stay. -/
theorem Joins.chains (h : Joins N s t D) (key : JsString) :
    D.key N = some key ∧ t.aggregateChains key = some s.arrived ∨
      D.key N ≠ some key ∧ t.aggregateChains key = s.aggregateChains key := by
  cases h with
  | chain own hkey _ _ hchains =>
      rw [hkey, hchains]
      by_cases hsame : key = own
      · subst hsame
        exact .inl ⟨rfl, Function.update_self ..⟩
      · exact .inr ⟨fun heq => hsame (Option.some.inj heq).symm, Function.update_of_ne hsame ..⟩
  | none hkey _ hchains =>
      rw [hkey, hchains]
      exact .inr ⟨(Option.some_ne_none key).symm, rfl⟩

section Arrival

variable (h : Arrives N s t D) (hinv : Inv N s)
include h

theorem Arrives.self : t.deliveries s.arrived = some D := by
  rw [h.deliveries, Function.update_self]

theorem Arrives.back (he : t.deliveries e = some E) :
    (e = s.arrived ∧ E = D) ∨ (e ≠ s.arrived ∧ s.deliveries e = some E) :=
  back_of_update h.deliveries he

include hinv

theorem Arrives.forth (he : s.deliveries e = some E) : t.deliveries e = some E := by
  have hlt := hinv.bound e E he
  rw [h.deliveries, Function.update_of_ne (by omega)]
  exact he

/-- What is before an old delivery is old. -/
theorem Arrives.old (he : s.deliveries e = some E) {c : Nat} {C : Delivery} (hc : c < e)
    (hC : t.deliveries c = some C) : s.deliveries c = some C := by
  have hlt := hinv.bound e E he
  cases h.back hC with
  | inl heq => omega
  | inr hold => exact hold.2

theorem Arrives.clear (he : s.deliveries e = some E) (hclear : s.Clear N e E) :
    t.Clear N e E :=
  fun c C hc hC hkey hsome => hclear c C hc (h.old hinv he hc hC) hkey hsome

/-- A chain that is not there holds nothing up; the last link of one that is there comes after
every other delivery of the aggregate. -/
theorem Arrives.clear_new {key : JsString} (hkey : D.key N = some key)
    (hnone : s.aggregateChains key = none) : t.Clear N s.arrived D := by
  intro c C hc hC hCkey _
  cases h.back hC with
  | inl heq => omega
  | inr hold => exact hinv.free key hnone c C hold.2 (hCkey.trans hkey)

/-- The new link is the last of its chain, and the other chains end as before. -/
theorem Arrives.last (hjoins : Joins N s t D) (key : JsString)
    (he : t.aggregateChains key = some e) :
    ∃ E, t.deliveries e = some E ∧ E.key N = some key ∧ E.returned = false ∧
      ∀ c C, t.deliveries c = some C → C.key N = some key → c ≤ e := by
  cases hjoins.chains key with
  | inl hnew =>
      obtain rfl : s.arrived = e := Option.some.inj (hnew.2.symm.trans he)
      refine ⟨D, h.self, hnew.1, h.returned, fun c C hC => ?_⟩
      exact forall_of_update h.deliveries (fun _ => Nat.le_refl _)
        (fun c C hC _ => Nat.le_of_lt (hinv.bound c C hC)) hC
  | inr hsame =>
      obtain ⟨E, hE, hEkey, hEreturned, hlast⟩ := hinv.last key e (hsame.2.symm.trans he)
      refine ⟨E, h.forth hinv hE, hEkey, hEreturned, fun c C hC => ?_⟩
      exact forall_of_update h.deliveries (fun hDkey => absurd hDkey hsame.1) hlast hC

/-- What joins a chain waits for the last link that it finds. -/
theorem Arrives.waits (hjoins : Joins N s t D) {prior : Nat}
    (hp : D.phase = .waiting (some prior)) :
    ∃ P, t.deliveries prior = some P ∧ prior < s.arrived ∧ P.key N = D.key N ∧
      (P.Processed ∨ P.id N = D.id N) ∧
      ∀ c C, c < s.arrived → t.deliveries c = some C → C.key N = D.key N → c ≤ prior := by
  cases hjoins with
  | chain key hkey hphase _ _ hid =>
      rw [hphase] at hp
      have hchain := Phase.waiting.inj hp
      obtain ⟨P, hP, hPkey, -, hlast⟩ := hinv.last key prior hchain
      refine ⟨P, h.forth hinv hP, hinv.bound prior P hP, hPkey.trans hkey.symm,
        hid prior P hchain hP, fun c C hc hC hCkey => ?_⟩
      cases h.back hC with
      | inl heq => omega
      | inr hold => exact hlast c C hold.2 (hCkey.trans hkey)
  | none _ hbegun => exact absurd hp (hbegun _)

/-- What has begun before is just what has begun among the old deliveries. -/
theorem Arrives.mem_started (e : Nat) :
    e ∈ s.started ↔ e ≠ s.arrived ∧ ∃ E, t.deliveries e = some E ∧ E.Begun := by
  rw [hinv.started]
  constructor
  · intro hbegun
    obtain ⟨E, hE, hbegun⟩ := hbegun
    have hlt := hinv.bound e E hE
    exact ⟨by omega, E, h.forth hinv hE, hbegun⟩
  · intro hbegun
    obtain ⟨hne, E, hE, hbegun⟩ := hbegun
    cases h.back hE with
    | inl heq => exact absurd heq.1 hne
    | inr hE => exact ⟨E, hE.2, hbegun⟩

theorem Arrives.started (hjoins : Joins N s t D) (e : Nat) :
    e ∈ t.started ↔ ∃ E, t.deliveries e = some E ∧ E.Begun := by
  cases hjoins with
  | chain key _ hphase _ _ _ hstarted =>
      rw [hstarted, h.mem_started hinv]
      constructor
      · exact fun hbegun => hbegun.2
      · intro hbegun
        refine ⟨fun heq => ?_, hbegun⟩
        obtain ⟨E, hE, hbegun⟩ := hbegun
        rw [heq, h.self] at hE
        cases hE
        exact hbegun _ hphase
  | none _ hbegun _ hstarted =>
      rw [hstarted, List.mem_cons, h.mem_started hinv]
      constructor
      · intro hor
        cases hor with
        | inl heq => exact ⟨D, heq ▸ h.self, hbegun⟩
        | inr hold => exact hold.2
      · intro hfound
        by_cases heq : e = s.arrived
        · exact .inl heq
        · exact .inr ⟨heq, hfound⟩

theorem Arrives.nodup (hjoins : Joins N s t D) : t.started.Nodup := by
  cases hjoins with
  | chain _ _ _ _ _ _ hstarted =>
      rw [hstarted]
      exact hinv.nodup
  | none _ _ _ hstarted =>
      rw [hstarted]
      refine List.nodup_cons.mpr ⟨fun hmem => ?_, hinv.nodup⟩
      exact ((h.mem_started hinv _).mp hmem).1 rfl

theorem inv_arrive (hjoins : Joins N s t D) : Inv N t := by
  constructor
  · intro e E he
    rw [h.arrived]
    exact forall_of_update h.deliveries (Nat.lt_succ_self _)
      (fun e E he => Nat.lt_succ_of_lt (hinv.bound e E he)) he
  · exact fun key e he => h.last hinv hjoins key he
  · intro key hnone e E he
    cases hjoins.chains key with
    | inl hnew => cases hnew.2.symm.trans hnone
    | inr hsame =>
        exact forall_of_update h.deliveries (fun hDkey => absurd hDkey hsame.1)
          (hinv.free key (hsame.2.symm.trans hnone)) he
  · intro e E p he hp
    cases h.back he with
    | inl heq =>
        obtain ⟨rfl, rfl⟩ := heq
        exact h.waits hinv hjoins hp
    | inr hold =>
        obtain ⟨P, hP, hlt, hPkey, hPid, hbetween⟩ := hinv.waits e E p hold.2 hp
        exact ⟨P, h.forth hinv hP, hlt, hPkey, hPid,
          fun c C hc hC => hbetween c C hc (h.old hinv hold.2 hc hC)⟩
  · intro e E he hnone
    cases h.back he with
    | inl heq =>
        obtain ⟨rfl, rfl⟩ := heq
        cases hjoins with
        | chain key hkey hphase =>
            rw [hphase] at hnone
            exact h.clear_new hinv hkey (Phase.waiting.inj hnone)
        | none _ hbegun => exact absurd hnone (hbegun _)
    | inr hold => exact h.clear hinv hold.2 (hinv.heads e E hold.2 hnone)
  · intro e E he hbegun
    cases h.back he with
    | inl heq =>
        obtain ⟨rfl, rfl⟩ := heq
        cases hjoins with
        | chain key _ hphase => exact absurd hphase (hbegun _)
        | none hkey =>
            intro c C _ _ _ hsome
            rw [hkey] at hsome
            cases hsome
    | inr hold => exact h.clear hinv hold.2 (hinv.begun e E hold.2 hbegun)
  · intro e E prior he hprior
    cases h.back he with
    | inl heq =>
        obtain ⟨rfl, rfl⟩ := heq
        cases hjoins with
        | chain key hkey _ hpromises => exact ⟨by rw [hkey]; rfl, hpromises⟩
        | none _ hbegun => exact absurd hprior (hbegun _)
    | inr hold => exact hinv.chained e E prior hold.2 hprior
  · intro e E he
    refine forall_of_update h.deliveries (fun hsome _ => ?_) hinv.settled he
    cases hjoins with
    | chain key _ _ hpromises =>
        rw [hpromises]
        simp
    | none hkey =>
        rw [hkey] at hsome
        cases hsome
  · intro e E he
    exact forall_of_update h.deliveries h.live hinv.live he
  · intro e E he
    refine forall_of_update h.deliveries (fun hreturned => ?_) hinv.returned he
    rw [h.returned] at hreturned
    cases hreturned
  · exact h.nodup hinv hjoins
  · exact h.started hinv hjoins
  · intro e E he
    exact forall_of_update h.deliveries h.printable hinv.printable he

end Arrival

/-! ## The steps -/

structure Processes (N : Type) [Json.Number N] (s t : Consumer) (d : Nat) (D D' : Delivery)
    (handlers : List Handler) : Prop where
  deliveries : t.deliveries = Function.update s.deliveries d (some D')
  arrived : t.arrived = s.arrived
  chains : t.aggregateChains = s.aggregateChains
  started : t.started = d :: s.started
  message : D'.message = D.message
  returned : D'.returned = D.returned
  phase : (D'.phase = .processed .deadLettered ∧ D'.call = D.call) ∨
    (D'.phase = .handling ∧ D'.call = handleMessage N handlers D.message.content)

theorem processDelivery_spec (handlers : List Handler) :
    ∃ D', Processes N s (s.processDelivery N maxRetries d D handlers) d D D' handlers := by
  unfold processDelivery
  by_cases hexceeded :
      (countDelivery maxRetries D.message.retryKey s.deliveryCounts).2 = true
  · simp only [hexceeded, if_true]
    exact ⟨_, rfl, rfl, rfl, rfl, rfl, rfl, .inl ⟨rfl, rfl⟩⟩
  · simp only [hexceeded]
    exact ⟨_, rfl, rfl, rfl, rfl, rfl, rfl, .inr ⟨rfl, rfl⟩⟩

section Processing

variable {handlers : List Handler} (h : Processes N s t d D D' handlers)
include h

theorem Processes.begun : D'.Begun := by
  intro prior hwaiting
  cases h.phase with
  | inl hdead => rw [hdead.1] at hwaiting; cases hwaiting
  | inr hhandling => rw [hhandling.1] at hwaiting; cases hwaiting

theorem Processes.live (_ : D'.phase = .handling)
    (hparse : (Json.parse D'.message.content : Option (Json N)) = none) :
    D'.call.outcome.isSome := by
  cases h.phase with
  | inl hdead => simp_all
  | inr hhandling =>
      rw [h.message] at hparse
      rw [hhandling.2, handleMessage, hparse]
      rfl

theorem Processes.settled (hcall : D.call.promises = []) (hleaves : LeavesNothing handlers)
    (hdone : D'.Processed ∨ D'.call.outcome.isSome) :
    ∀ promise ∈ D'.call.promises, promise.settled = true := by
  cases h.phase with
  | inl hdead =>
      rw [hdead.2, hcall]
      simp
  | inr hhandling =>
      have houtcome : D'.call.outcome.isSome := by
        cases hdone with
        | inl hprocessed =>
            obtain ⟨verdict, hprocessed⟩ := hprocessed
            rw [hhandling.1] at hprocessed
            cases hprocessed
        | inr houtcome => exact houtcome
      rw [hhandling.2] at houtcome ⊢
      unfold handleMessage at houtcome ⊢
      cases hparse : (Json.parse D.message.content : Option (Json N)) with
      | none => simp [start]
      | some event =>
          rw [hparse] at houtcome
          apply hleaves
          simpa [start] using houtcome

end Processing

/-- A waiting delivery whose prior link has resolved has nothing before it that has not
ended. -/
theorem clear_of_ready {prior : Option Nat} (hinv : Inv N s) (hD : s.deliveries d = some D)
    (hphase : D.phase = .waiting prior) (hready : prior.all s.isProcessed = true) :
    s.Clear N d D := by
  cases prior with
  | none => exact hinv.heads d D hD hphase
  | some p =>
      obtain ⟨P, hP, hlt, hPkey, -, hbetween⟩ := hinv.waits d D p hD hphase
      obtain ⟨P', hP', hprocessed⟩ := isProcessed_iff.mp hready
      rw [hP] at hP'
      cases hP'
      intro c C hc hC hCkey hsome
      have hle := hbetween c C hc hC hCkey
      by_cases heq : c = p
      · subst heq
        rw [hP] at hC
        cases hC
        exact ⟨hprocessed, hinv.settled c P hP (hPkey ▸ hsome) (.inl hprocessed)⟩
      · apply hinv.begun p P hP hprocessed.begun c C (by omega) hC (hCkey.trans hPkey.symm)
        rw [hPkey]
        exact hsome

theorem inv_start {handlers : List Handler} {prior : Option Nat} (hinv : Inv N s)
    (hD : s.deliveries d = some D) (hphase : D.phase = .waiting prior)
    (hready : prior.all s.isProcessed = true) (hleaves : LeavesNothing handlers) :
    Inv N (s.processDelivery N maxRetries d D handlers) := by
  obtain ⟨D', h⟩ : ∃ D', Processes N s (s.processDelivery N maxRetries d D handlers) d D D'
    handlers := processDelivery_spec handlers
  have hwaiting : ¬ D.Begun := fun hbegun => hbegun prior hphase
  have hnot : d ∉ s.started := by
    intro hmem
    obtain ⟨E, hE, hbegun⟩ := (hinv.started d).mp hmem
    rw [hD] at hE
    cases hE
    exact hwaiting hbegun
  have hcall := (hinv.chained d D prior hD hphase).2
  have hreplaces : Replaces s (s.processDelivery N maxRetries d D handlers) d D D' :=
    { found := hD
      deliveries := h.deliveries
      arrived := h.arrived
      message := h.message
      ended := fun hended => absurd hended.1.begun hwaiting
      processed := fun hprocessed => absurd hprocessed.begun hwaiting }
  apply inv_replace hinv hreplaces h.chains
    (.inr ⟨h.begun, clear_of_ready hinv hD hphase hready⟩) (.inl h.returned)
  · intro other hother
    exact absurd hother (h.begun other)
  · intro _ hdone
    exact h.settled hcall hleaves hdone
  · exact h.live
  · rw [h.started]
    exact List.nodup_cons.mpr ⟨hnot, hinv.nodup⟩
  · intro e
    rw [h.started, List.mem_cons]
    by_cases heq : e = d
    · subst heq
      exact ⟨fun _ => ⟨D', hreplaces.self, h.begun⟩, fun _ => .inl rfl⟩
    · rw [hreplaces.other heq, ← hinv.started e]
      exact ⟨fun hor => hor.resolve_left heq, .inr⟩

/-- The condition on a step.  A delivery whose body carries an aggregate id has one that can be
converted to a string, and the chain that it joins is of deliveries with the same id; a
serialized delivery leaves no handler under way when another one throws. -/
def Meets (N : Type) [Json.Number N] (s : Consumer) : Action → Prop
  | .deliver message _ =>
      ((aggregateId N message.content).isSome → (peekAggregateId N message.content).isSome) ∧
        ∀ key p P, peekAggregateId N message.content = some key →
          s.aggregateChains key = some p → s.deliveries p = some P →
            P.Processed ∨ P.id N = aggregateId N message.content
  | .start _ handlers => LeavesNothing handlers
  | _ => True

theorem inv_deliver {message : Message} {handlers : List Handler} (hinv : Inv N s)
    (hmeets : Meets N s (.deliver message handlers))
    (hstep : step N maxRetries s (.deliver message handlers) = some t) : Inv N t := by
  obtain ⟨hprintable, hchain⟩ := hmeets
  simp only [step] at hstep
  cases hkey : peekAggregateId N message.content with
  | none =>
      rw [hkey] at hstep
      cases hstep
      obtain ⟨D', h⟩ : ∃ D', Processes N { s with arrived := s.arrived + 1 }
          (processDelivery N maxRetries s.arrived
            { message, phase := .waiting none } handlers { s with arrived := s.arrived + 1 }) s.arrived
          { message, phase := .waiting none } D' handlers := processDelivery_spec handlers
      have hD'key : D'.key N = none := by
        rw [Delivery.key_congr h.message]
        exact hkey
      refine inv_arrive ⟨h.deliveries, h.arrived, h.returned, fun hid => ?_, h.live⟩ hinv
        (.none hD'key h.begun h.chains h.started)
      rw [Delivery.id_congr h.message] at hid
      rw [Delivery.key_congr h.message]
      exact hprintable hid
  | some key =>
      rw [hkey] at hstep
      cases hstep
      refine inv_arrive (D := { message, phase := .waiting (s.aggregateChains key) })
        ⟨rfl, rfl, rfl, fun _ => ?_, fun hphase => by cases hphase⟩ hinv
        (.chain key hkey rfl rfl rfl (fun p P => hchain key p P hkey) rfl)
      rw [Delivery.key, hkey]
      rfl

theorem inv_handle {action : Brokers.Action} (hinv : Inv N s)
    (hstep : step N maxRetries s (.handle d action) = some t) : Inv N t := by
  obtain ⟨D, event, call, hD, hparse, hcall, hbegun, rfl⟩ := handle_spec hstep
  have hkept (hsettled : ∀ promise ∈ D.call.promises, promise.settled = true) :
      ∀ promise ∈ call.promises, promise.settled = true := by
    cases step_cases hcall with
    | inl hsettle => obtain ⟨i, rfl⟩ := hsettle; exact settled_settle hsettled
    | inr hresume => obtain ⟨-, -, rfl⟩ := hresume; exact hsettled
  have hreplaces : Replaces s (s.set d { D with call }) d D { D with call } :=
    { found := hD
      deliveries := rfl
      arrived := rfl
      message := rfl
      ended := fun hended => ⟨hended.1, hkept hended.2⟩
      processed := fun hprocessed => hprocessed }
  apply inv_replace hinv hreplaces rfl (.inl rfl) (.inl rfl)
  · intro prior hwaiting
    exact absurd hwaiting (hbegun prior)
  · intro hsome hdone
    cases step_cases hcall with
    | inl hsettle =>
        obtain ⟨i, rfl⟩ := hsettle
        exact settled_settle (hinv.settled d D hD hsome hdone)
    | inr hresume => obtain ⟨-, hsettled, rfl⟩ := hresume; exact hsettled
  · intro _ hnone
    rw [hparse] at hnone
    cases hnone
  · exact hinv.nodup
  · exact hreplaces.started hinv hbegun hbegun rfl

theorem inv_finish (hinv : Inv N s) (hstep : step N maxRetries s (.finish d) = some t) :
    Inv N t := by
  obtain ⟨D, outcome, hD, houtcome, hphase, rfl⟩ := finish_spec hstep
  have hbegun : D.Begun := fun prior h => by rw [hphase] at h; cases h
  have hreplaces : Replaces s (s.finish maxRetries d D outcome) d D
      { D with phase := .processed (verdict outcome) } :=
    { found := hD
      deliveries := rfl
      arrived := rfl
      message := rfl
      ended := fun hended => ⟨⟨_, rfl⟩, hended.2⟩
      processed := fun _ => ⟨_, rfl⟩ }
  have hprocessed : ({ D with phase := .processed (verdict outcome) } : Delivery).Begun :=
    Delivery.Processed.begun ⟨_, rfl⟩
  apply inv_replace hinv hreplaces rfl
    (.inr ⟨hprocessed, hinv.begun d D hD hbegun⟩) (.inl rfl)
  · intro prior hwaiting
    exact absurd hwaiting (hprocessed prior)
  · intro hsome _
    apply hinv.settled d D hD hsome
    right
    rw [houtcome]
    rfl
  · intro hhandling
    cases hhandling
  · exact hinv.nodup
  · exact hreplaces.started hinv hbegun hprocessed rfl

/-- The chain whose last link has resolved is dropped. -/
theorem inv_unlink {key : JsString} (hinv : Inv N s) (hD : s.deliveries d = some D)
    (hprocessed : D.Processed) (hkey : s.aggregateChains key = some d) :
    Inv N { s with aggregateChains := Function.update s.aggregateChains key none } := by
  obtain ⟨L, hL, hLkey, -, hlast⟩ := hinv.last key d hkey
  rw [hD] at hL
  cases hL
  have hsome : (D.key N).isSome := by rw [hLkey]; rfl
  refine { hinv with last := fun other e he => ?_, free := fun other hnone e E he hEkey => ?_ }
  · by_cases hsame : other = key
    · subst hsame
      simp only [Function.update_self] at he
      cases he
    · simp only [Function.update_of_ne hsame] at he
      exact hinv.last other e he
  · by_cases hsame : other = key
    · subst hsame
      have hle := hlast e E he hEkey
      by_cases heq : e = d
      · subst heq
        rw [hD] at he
        cases he
        exact ⟨hprocessed, hinv.settled e D hD hsome (.inl hprocessed)⟩
      · exact hinv.begun d D hD hprocessed.begun e E (by omega) he (hEkey.trans hLkey.symm) hsome
    · simp only [Function.update_of_ne hsame] at hnone
      exact hinv.free other hnone e E he hEkey

/-- The callback returns; the delivery is no last link of a chain any more. -/
theorem inv_returned (hinv : Inv N s) (hD : s.deliveries d = some D)
    (hprocessed : D.Processed) (hlast : ∀ key, s.aggregateChains key ≠ some d) :
    Inv N (s.set d { D with returned := true }) := by
  have hreplaces : Replaces s (s.set d { D with returned := true }) d D
      { D with returned := true } :=
    { found := hD
      deliveries := rfl
      arrived := rfl
      message := rfl
      ended := fun hended => hended
      processed := fun hprocessed => hprocessed }
  apply inv_replace hinv hreplaces rfl (.inl rfl) (.inr ⟨hprocessed, hlast⟩)
  · exact fun _ _ => rfl
  · exact hinv.settled d D hD
  · exact hinv.live d D hD
  · exact hinv.nodup
  · exact hreplaces.started hinv hprocessed.begun hprocessed.begun rfl

theorem inv_leave (hinv : Inv N s) (hstep : step N maxRetries s (.leave d) = some t) :
    Inv N t := by
  obtain ⟨D, hD, hprocessed, hleaves⟩ := leave_spec hstep
  have hlinked {key : JsString} (hchain : s.aggregateChains key = some d) :
      D.key N = some key := by
    obtain ⟨L, hL, hLkey, -⟩ := hinv.last key d hchain
    obtain rfl := Option.some.inj (hD.symm.trans hL)
    exact hLkey
  rcases hleaves with ⟨hlast, rfl⟩ | ⟨key, hkey, hchain, rfl⟩
  · exact inv_returned hinv hD hprocessed fun key hchain => hlast key (hlinked hchain) hchain
  · refine inv_returned (inv_unlink hinv hD hprocessed hchain) hD hprocessed fun other hother => ?_
    by_cases hsame : other = key
    · subst hsame
      simp at hother
    · simp only [Function.update_of_ne hsame] at hother
      exact hsame (Option.some.inj ((hlinked hother).symm.trans hkey))

theorem inv_step {action : Action} (hinv : Inv N s) (hmeets : Meets N s action)
    (hstep : step N maxRetries s action = some t) : Inv N t := by
  cases action with
  | deliver message handlers => exact inv_deliver hinv hmeets hstep
  | start d handlers =>
      obtain ⟨D, prior, hD, hphase, hready, rfl⟩ := start_spec hstep
      exact inv_start hinv hD hphase hready hmeets
  | handle d action => exact inv_handle hinv hstep
  | finish d => exact inv_finish hinv hstep
  | leave d => exact inv_leave hinv hstep

/-! ## The order -/

variable (N) in
/-- Deliveries of one aggregate are processed one at a time and in their order, a delivery waits
for no other one, each is processed once, and the chains are dropped when all have been. -/
structure Serialized (maxRetries : Option Nat) (s : Consumer) : Prop where
  inOrder : ∀ d e D E, d < e → s.deliveries d = some D → s.deliveries e = some E →
    (E.id N).isSome → D.id N = E.id N → E.Begun → D.Ended
  waitsForSame : ∀ e E p P, s.deliveries e = some E → E.phase = .waiting (some p) →
    s.deliveries p = some P → ¬ P.Processed → (E.id N).isSome ∧ P.id N = E.id N
  once : s.started.Nodup ∧ ∀ d D, s.deliveries d = some D → D.Processed → d ∈ s.started
  drained : (∀ action, (∀ message handlers, action ≠ .deliver message handlers) →
      step N maxRetries s action = none) →
    (∀ d D, s.deliveries d = some D → D.Processed) ∧ ∀ key, s.aggregateChains key = none

theorem step_start {prior : Option Nat} {handlers : List Handler}
    (hD : s.deliveries d = some D) (hphase : D.phase = .waiting prior)
    (hready : prior.all s.isProcessed = true) :
    step N maxRetries s (.start d handlers) =
      some (s.processDelivery N maxRetries d D handlers) := by
  simp only [step, hD, Option.bind_eq_bind, Option.bind_some, hphase]
  exact if_pos hready

/-- Where nothing can go on, every delivery is processed. -/
theorem processed_of_stuck (hinv : Inv N s)
    (hstuck : ∀ action, (∀ message handlers, action ≠ .deliver message handlers) →
      step N maxRetries s action = none) :
    ∀ d D, s.deliveries d = some D → D.Processed := by
  intro d
  induction d using Nat.strongRecOn with
  | ind d ih =>
      intro D hD
      cases hphase : D.phase with
      | processed verdict => exact ⟨verdict, hphase⟩
      | waiting prior =>
          have hready : prior.all s.isProcessed = true := by
            cases prior with
            | none => rfl
            | some p =>
                obtain ⟨P, hP, hlt, -⟩ := hinv.waits d D p hD hphase
                exact isProcessed_iff.mpr ⟨P, hP, ih p hlt P hP⟩
          have hnone := hstuck (.start d []) (fun _ _ heq => by cases heq)
          rw [step_start hD hphase hready] at hnone
          cases hnone
      | handling =>
          have houtcome : D.call.outcome.isSome := by
            cases hparse : (Json.parse D.message.content : Option (Json N)) with
            | none => exact hinv.live d D hD hphase hparse
            | some event =>
                have hlaw : (∀ action, D.call.step { poisoned := false } event action = none) →
                    D.call.outcome.isSome := settles_of_stuck
                apply hlaw
                intro action
                have hnone := hstuck (.handle d action) (fun _ _ heq => by cases heq)
                simp only [step, hD, Option.bind_eq_bind, Option.bind_some, hparse, hphase]
                  at hnone
                cases hcall : D.call.step { poisoned := false } event action with
                | none => rfl
                | some call =>
                    rw [RabbitMqEventBus.step, hcall] at hnone
                    cases hnone
          obtain ⟨outcome, houtcome⟩ := Option.isSome_iff_exists.mp houtcome
          have hnone := hstuck (.finish d) (fun _ _ heq => by cases heq)
          simp only [step, hD, Option.bind_eq_bind, Option.bind_some, houtcome, hphase,
            if_true] at hnone
          cases hnone

theorem Inv.serialized (hinv : Inv N s) : Serialized N maxRetries s := by
  constructor
  · intro d e D E hlt hD hE hid hsame hbegun
    have hkey : D.key N = E.key N := by
      unfold Delivery.key peekAggregateId
      exact congrArg (fun id => Option.bind id Json.toText) hsame
    exact hinv.begun e E hE hbegun d D hlt hD hkey (hinv.printable e E hE hid)
  · intro e E p P hE hphase hP hwaits
    obtain ⟨P', hP', -, -, hid, -⟩ := hinv.waits e E p hE hphase
    rw [hP] at hP'
    cases hP'
    refine ⟨?_, hid.resolve_left hwaits⟩
    have hkey := (hinv.chained e E _ hE hphase).1
    unfold Delivery.key peekAggregateId at hkey
    cases hnone : E.id N with
    | none =>
        unfold Delivery.id at hnone
        rw [hnone] at hkey
        cases hkey
    | some id => rfl
  · refine ⟨hinv.nodup, fun d D hD hprocessed => ?_⟩
    exact (hinv.started d).mpr ⟨D, hD, hprocessed.begun⟩
  · intro hstuck
    have hprocessed := processed_of_stuck hinv hstuck
    refine ⟨hprocessed, fun key => ?_⟩
    cases hchain : s.aggregateChains key with
    | none => rfl
    | some d =>
        obtain ⟨D, hD, hkey, hreturned, -⟩ := hinv.last key d hchain
        have hnone := hstuck (.leave d) (fun _ _ heq => by cases heq)
        have hready := isProcessed_iff.mpr ⟨D, hD, hprocessed d D hD⟩
        have hpeek : peekAggregateId N D.message.content = some key := hkey
        simp only [step, hD, Option.bind_eq_bind, Option.bind_some, hready, hreturned, and_self,
          if_true, hpeek] at hnone
        split_ifs at hnone

/-- In a run whose steps all meet the condition, the deliveries of an aggregate are
serialized. -/
theorem serialized_of_run (maxRetries : Option Nat)
    (hrun : Machine.Run (step N maxRetries) (Meets N) {} s) : Serialized N maxRetries s :=
  (hrun.inv inv_init fun _ _ _ hinv hmeets hstep => inv_step hinv hmeets hstep).serialized

section Sample

open Noddde.Adapters.Sample

def ofAggregate : Json (Fin 10) :=
  .object [(Json.ascii "metadata",
    .object [(Json.ascii "aggregateId", .string (Json.ascii "a"))])]

theorem parse_ofAggregate : Json.parse (Json.stringify ofAggregate) = some ofAggregate := by
  apply Json.parse_stringify
  apply Json.Proper.object
  · simp
  · intro field hmem
    obtain rfl := List.mem_singleton.mp hmem
    apply Json.Proper.object
    · simp
    · intro field hmem
      obtain rfl := List.mem_singleton.mp hmem
      exact .string _

def opened (copy : Nat) : Message where
  eventName := "Opened"
  copy
  messageId := some s!"m{copy}"
  content := Json.stringify ofAggregate
  digest := ""

theorem aggregateId_opened (copy : Nat) :
    aggregateId (Fin 10) (opened copy).content = some (.string (Json.ascii "a")) := by
  unfold aggregateId opened
  rw [parse_ofAggregate]
  rfl

theorem peekAggregateId_opened (copy : Nat) :
    peekAggregateId (Fin 10) (opened copy).content = some (Json.ascii "a") := by
  rw [peekAggregateId, aggregateId_opened]
  rfl

/-- The deliveries 0 and 1 have arrived; each of them is handled in its turn. -/
def inTurn : List Action :=
  [.start 0 [resolving], .handle 0 (.settle 0), .handle 0 .resume, .finish 0, .leave 0,
    .start 1 [resolving], .handle 1 (.settle 0), .handle 1 .resume, .finish 1, .leave 1]

theorem play_inTurn :
    (Machine.play (step (Fin 10) none)
      (.deliver (opened 0) [] :: .deliver (opened 1) [] :: inTurn) {}).map
      (fun s => (s.history, s.aggregateChains (Json.ascii "a"))) =
        some ([.ended 1 (opened 1) [resolving] .acked, .began 1 (opened 1),
          .ended 0 (opened 0) [resolving] .acked, .began 0 (opened 0)], none) := by
  decide +kernel

theorem meets_opened {s : Consumer} {copy : Nat}
    (h : ∀ d D, s.deliveries d = some D → D.message = opened d) :
    Meets (Fin 10) s (.deliver (opened copy) []) := by
  refine ⟨fun _ => by rw [peekAggregateId_opened]; rfl, fun key p P _ _ hP => ?_⟩
  right
  rw [Delivery.id, h p P hP, aggregateId_opened, aggregateId_opened]

theorem meets_inTurn : ∀ action ∈ inTurn, ∀ s, Meets (Fin 10) s action := by
  have hresolving : LeavesNothing [resolving] := fun hthrown => by cases hthrown
  intro action hmem s
  simp only [inTurn, List.mem_cons, List.not_mem_nil, or_false] at hmem
  rcases hmem with rfl | rfl | rfl | rfl | rfl | rfl | rfl | rfl | rfl | rfl <;> trivial

/-- Two deliveries of one aggregate, handled one after the other. -/
theorem serialized_of_run_two :
    ∃ s, Serialized (Fin 10) none s ∧
      s.history = [.ended 1 (opened 1) [resolving] .acked, .began 1 (opened 1),
        .ended 0 (opened 0) [resolving] .acked, .began 0 (opened 0)] ∧
      s.aggregateChains (Json.ascii "a") = none := by
  obtain ⟨s, hs, hstate⟩ := Option.map_eq_some_iff.mp play_inTurn
  simp only [Prod.mk.injEq] at hstate
  obtain ⟨first, hfirst, hrest⟩ := Machine.play_cons_eq_some_iff.mp hs
  obtain ⟨second, hsecond, hrest⟩ := Machine.play_cons_eq_some_iff.mp hrest
  have hmessage (d : Nat) (D : Delivery) (hD : first.deliveries d = some D) :
      D.message = opened d := by
    simp only [step, peekAggregateId_opened, Option.some.injEq] at hfirst
    subst hfirst
    by_cases hd : d = 0
    · subst hd
      simp only [set, Function.update_self, Option.some.injEq] at hD
      rw [← hD]
    · simp [set, Function.update_of_ne hd] at hD
  have hdelivered : Machine.Run (step (Fin 10) none) (Meets (Fin 10)) {} second :=
    (Machine.Run.tail .refl (meets_opened fun d D hD => by cases hD) hfirst).tail
      (meets_opened hmessage) hsecond
  have hrun := hdelivered.trans (Machine.run_of_play meets_inTurn hrest)
  exact ⟨s, serialized_of_run none hrun, hstate⟩

/-- A handler throws while one called before it still runs: the next delivery of the aggregate
begins. -/
theorem serialized_throwing :
    ¬ ∀ (maxRetries : Option Nat) (s : Consumer), Reached (Fin 10) maxRetries s →
      Serialized (Fin 10) maxRetries s := by
  intro hall
  have hplay : (Machine.play (step (Fin 10) none)
      [.deliver (opened 0) [], .deliver (opened 1) [],
        .start 0 [resolving, ⟨"", .throws (.error "down" false)⟩], .finish 0,
        .start 1 [resolving]] {}).map
      (fun s => ((s.deliveries 0).map fun D =>
          (decide (D.message.content = (opened 0).content), D.call.promises.map Promise.settled),
        (s.deliveries 1).map fun D =>
          (decide (D.message.content = (opened 0).content), decide (D.phase = .handling)))) =
      some (some (true, [false]), some (true, true)) := by decide +kernel
  obtain ⟨s, hs, hview⟩ := Option.map_eq_some_iff.mp hplay
  have hrun := Machine.run_of_play (C := fun _ _ => True) (fun _ _ _ => trivial) hs
  simp only [Prod.mk.injEq, Option.map_eq_some_iff, decide_eq_true_eq] at hview
  obtain ⟨⟨D, hD, hDcontent, hpending⟩, E, hE, hEcontent, hhandling⟩ := hview
  have hid {X : Delivery} (h : X.message.content = (opened 0).content) :
      X.id (Fin 10) = some (.string (Json.ascii "a")) := by
    rw [Delivery.id, h, aggregateId_opened]
  have hended := (hall none s hrun).inOrder 0 1 D E Nat.zero_lt_one hD hE
    (by rw [hid hEcontent]; rfl) ((hid hDcontent).trans (hid hEcontent).symm)
    (fun prior h => by rw [hhandling] at h; cases h)
  obtain ⟨promise, hmem, hsettled⟩ : ∃ promise ∈ D.call.promises, promise.settled = false := by
    rw [← List.mem_map, hpending]
    exact List.mem_singleton_self false
  rw [hended.2 promise hmem] at hsettled
  cases hsettled

end Sample

end Consumer

end Noddde.Brokers.RabbitMqEventBus
