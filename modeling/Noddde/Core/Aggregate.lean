import Noddde.Core.Event
/-!
# Aggregates and their replay

Upcasters lift a stored payload to the current schema; evolve handlers fold the
upcasted events into a state.  Handlers are user code and may throw.
-/

namespace Noddde

variable {J Infra : Type}

/-! ## Upcasters -/

abbrev UpcasterChain (J : Type) := List (J → Except Err J)

/-- The chains that the map itself has.  It is an object that inherits from
`Object.prototype`. -/
abbrev UpcasterMap (J : Type) := String → Option (UpcasterChain J)

/-- The members of `Object.prototype` with their `length`: all of them are functions, except
for `__proto__`, whose value has none. -/
def objectPrototype : String → Option (Option Nat)
  | "constructor" | "hasOwnProperty" | "isPrototypeOf" | "propertyIsEnumerable"
  | "__lookupGetter__" | "__lookupSetter__" => some (some 1)
  | "__defineGetter__" | "__defineSetter__" => some (some 2)
  | "toString" | "toLocaleString" | "valueOf" => some (some 0)
  | "__proto__" => some none
  | _ => none

/-- What is found under the name of an event. -/
inductive Member (J : Type) where
  | chain (steps : UpcasterChain J)
  | inherited (length : Option Nat)

def UpcasterMap.get (upcasters : UpcasterMap J) (eventName : String) : Option (Member J) :=
  match upcasters eventName with
  | some steps => some (.chain steps)
  | none => (objectPrototype eventName).map .inherited

namespace Member

variable (member : Member J)

def length : Option Nat :=
  match member with
  | .chain steps => some steps.length
  | .inherited length => length

/-- `chain[i]`, for every `i` below the length; of a function it is `undefined`. -/
def steps : UpcasterChain J :=
  match member with
  | .chain steps => steps
  | .inherited length =>
      List.replicate (length.getD 0) fun _ => .error (.error "chain[i] is not a function")

theorem length_steps : member.steps.length = member.length.getD 0 := by
  cases member with
  | chain steps => rfl
  | inherited length => exact List.length_replicate

/-- `chain.length + 1` -/
def currentVersion : SchemaVersion :=
  match member.length with
  | some length => .number (length + 1)
  | none => .nan

end Member

def upcastEvent (event : Event J) (upcasters : UpcasterMap J) :
    Except Err (Event J) :=
  match upcasters.get event.name with
  | none => .ok event
  | some chain =>
      if chain.length = some 0 then .ok event
      else
        let storedVersion := (event.metadata.bind (·.version)).getD (.number 1)
        if storedVersion ≥ chain.currentVersion then .ok event
        else
          match chain.length, storedVersion with
          | some _, .number 0 =>
              -- the loop starts at `chain[-1]`
              .error (.error "chain[i] is not a function")
          | some _, .number (first + 1) => do
              let payload ← (chain.steps.drop first).foldlM
                (fun payload step => step payload) event.payload
              .ok { event with payload }
          -- the loop does not run
          | _, _ => .ok event

def upcastEvents (events : List (Event J)) (upcasters : UpcasterMap J) :
    Except Err (List (Event J)) :=
  events.mapM fun event => upcastEvent event upcasters

def currentEventVersion (eventName : String) (upcasters : UpcasterMap J) : SchemaVersion :=
  match upcasters.get eventName with
  | none => .number 1
  | some chain => chain.currentVersion

/-- An event that carries the current version is left alone. -/
theorem upcastEvent_of_current {event : Event J} {upcasters : UpcasterMap J}
    (h : event.metadata.bind (·.version) =
      some (currentEventVersion event.name upcasters)) :
    upcastEvent event upcasters = .ok event := by
  unfold upcastEvent
  unfold currentEventVersion at h
  cases hchain : upcasters.get event.name with
  | none => rfl
  | some chain =>
      simp only [hchain] at h
      simp only [h, Option.getD_some]
      cases hversion : chain.currentVersion with
      | number n => simp
      | nan => simp

theorem upcastEvent_name {event upcasted : Event J} {upcasters : UpcasterMap J}
    (h : upcastEvent event upcasters = .ok upcasted) : upcasted.name = event.name := by
  unfold upcastEvent at h
  cases hchain : upcasters.get event.name with
  | none =>
      simp only [hchain] at h
      rw [← Except.ok.inj h]
  | some chain =>
      simp only [hchain] at h
      split_ifs at h
      · rw [← Except.ok.inj h]
      · rw [← Except.ok.inj h]
      · split at h
        · cases h
        · simp only [bind, Except.bind] at h
          split at h
          · cases h
          · rw [← Except.ok.inj h]
        · rw [← Except.ok.inj h]

theorem upcastEvents_append (xs ys : List (Event J)) (upcasters : UpcasterMap J) :
    upcastEvents (xs ++ ys) upcasters = (do
      let us ← upcastEvents xs upcasters
      let vs ← upcastEvents ys upcasters
      pure (us ++ vs)) := by
  simp [upcastEvents, List.mapM_append]

theorem upcastEvents_of_current {events : List (Event J)} {upcasters : UpcasterMap J}
    (h : ∀ e ∈ events, e.metadata.bind (·.version) =
      some (currentEventVersion e.name upcasters)) :
    upcastEvents events upcasters = .ok events := by
  induction events with
  | nil => rfl
  | cons e rest ih =>
      have hrest := ih fun e' he' => h e' (List.mem_cons_of_mem _ he')
      simp only [upcastEvents] at hrest
      simp only [upcastEvents, List.mapM_cons,
        upcastEvent_of_current (h e List.mem_cons_self), hrest]
      rfl

/-! ## Aggregates -/

/-- `T | T[]`, as decide handlers and saga reactions may return it. -/
inductive OneOrMany (α : Type) where
  | single (x : α)
  | many (xs : List α)

def OneOrMany.toArray {α : Type} : OneOrMany α → List α
  | .single x => [x]
  | .many xs => xs

/-- An aggregate definition.  `Infra` is what a decide handler can read from the
infrastructure it is given. -/
structure Aggregate (J Infra : Type) where
  initialState : J
  decide : String → Option (Command J → J → Infra → Except Err (OneOrMany (Event J)))
  evolve : String → Option (J → J → Except Err J)
  upcasters : Option (UpcasterMap J)

namespace Aggregate

variable (aggregate : Aggregate J Infra)

def applyEvent (state : J) (event : Event J) : Except Err J :=
  match aggregate.evolve event.name with
  | some applyHandler => applyHandler event.payload state
  | none => .ok state

def applyEvents (state : J) (events : List (Event J)) : Except Err J :=
  events.foldlM aggregate.applyEvent state

def upcast (events : List (Event J)) : Except Err (List (Event J)) :=
  match aggregate.upcasters with
  | some upcasters => upcastEvents events upcasters
  | none => .ok events

/-- Upcast `events`, then reduce them from `state`. -/
def replayFrom (state : J) (events : List (Event J)) : Except Err J := do
  let upcastedEvents ← aggregate.upcast events
  aggregate.applyEvents state upcastedEvents

/-- The evolve-fold of a stream from the initial state. -/
def replay (events : List (Event J)) : Except Err J :=
  aggregate.replayFrom aggregate.initialState events

/-- `eventVersionResolver` of the enrichment step. -/
def eventVersion (eventName : String) : Option SchemaVersion :=
  aggregate.upcasters.map (currentEventVersion eventName)

/-- Events as the engine writes them for this aggregate: they state the schema
version that is current when they are written. -/
def Current (events : List (Event J)) : Prop :=
  ∀ e ∈ events, e.metadata.bind (·.version) = aggregate.eventVersion e.name

theorem upcast_append (xs ys : List (Event J)) :
    aggregate.upcast (xs ++ ys) = (do
      let us ← aggregate.upcast xs
      let vs ← aggregate.upcast ys
      pure (us ++ vs)) := by
  unfold upcast
  cases aggregate.upcasters with
  | none => rfl
  | some upcasters => exact upcastEvents_append xs ys upcasters

theorem upcast_of_current {events : List (Event J)} (h : aggregate.Current events) :
    aggregate.upcast events = .ok events := by
  cases hu : aggregate.upcasters with
  | none => simp [upcast, hu]
  | some upcasters =>
      simp only [upcast, hu]
      exact upcastEvents_of_current fun e he => by
        simpa [eventVersion, hu] using h e he

/-- Evolving reads only the name and the payload of an event. -/
theorem applyEvents_congr {xs ys : List (Event J)}
    (h : xs.map Event.fact = ys.map Event.fact) (state : J) :
    aggregate.applyEvents state xs = aggregate.applyEvents state ys := by
  induction xs generalizing ys state with
  | nil =>
      obtain rfl : ys = [] := by simpa using h.symm
      rfl
  | cons x xs ih =>
      cases ys with
      | nil => simp at h
      | cons y ys =>
          simp only [List.map_cons, List.cons.injEq, Event.fact, Prod.mk.injEq] at h
          obtain ⟨⟨hname, hpayload⟩, hrest⟩ := h
          have hstep : aggregate.applyEvent state x = aggregate.applyEvent state y := by
            simp only [applyEvent, hname, hpayload]
          simp only [applyEvents, List.foldlM_cons, hstep]
          cases aggregate.applyEvent state y with
          | error e => rfl
          | ok next => exact ih hrest next

theorem replayFrom_append {start state : J} {xs : List (Event J)}
    (h : aggregate.replayFrom start xs = .ok state) (ys : List (Event J)) :
    aggregate.replayFrom start (xs ++ ys) = aggregate.replayFrom state ys := by
  simp only [replayFrom] at h ⊢
  cases hx : aggregate.upcast xs with
  | error e => simp [hx, bind, Except.bind] at h
  | ok us =>
      simp only [hx, bind, Except.bind] at h
      simp only [upcast_append, hx, bind, Except.bind]
      cases aggregate.upcast ys with
      | error e => rfl
      | ok vs =>
          simp only [applyEvents, List.foldlM_append, pure, Except.pure] at h ⊢
          rw [h]
          rfl

/-- The state after a batch that the engine wrote is the state that the
lifecycle computed from the raw events. -/
theorem replay_append_current {state : J} {xs newEvents batch : List (Event J)}
    (h : aggregate.replay xs = .ok state) (hcurrent : aggregate.Current batch)
    (hfacts : batch.map Event.fact = newEvents.map Event.fact) :
    aggregate.replay (xs ++ batch) = aggregate.applyEvents state newEvents := by
  rw [replay, replayFrom_append aggregate h, replayFrom, upcast_of_current _ hcurrent]
  exact applyEvents_congr aggregate hfacts state

end Aggregate

end Noddde
