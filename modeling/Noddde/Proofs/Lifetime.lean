import Noddde.Async.Machine
import Noddde.Data.ExceptMap
import Noddde.Engine.DeliverySample
import Noddde.Engine.Lifetime
import Noddde.Engine.ProjectionRebuild
import Mathlib.Algebra.GroupWithZero.Nat
/-!
# Sequence numbers and schema versions over the life of an instance

An event-sourced instance counts its events, a state-stored one its commands: that is
what the sequence numbers follow.  Every event carries the version of the upcaster
chain it was written under, so a longer chain goes on where that one ended.
-/

namespace Noddde.Lifetime

variable {J Infra : Type}

/-! ## Batches -/

/-- The sequence numbers of batches of events, if each batch begins after the number of
the batches before it. -/
def numbers : (version : Nat) → List Nat → List Nat
  | _, [] => []
  | version, batch :: rest => List.range' (version + 1) batch ++ numbers (version + 1) rest

/-- Batches whose numbers follow on each other: before a batch that is not empty there
are as many events as batches, counting from `n` events and `version` batches. -/
def Aligned (n version : Nat) (batches : List Nat) : Prop :=
  ∀ before batch after, batches = before ++ batch :: after → 0 < batch →
    n + before.sum = version + before.length

theorem aligned_cons {n version batch : Nat} {rest : List Nat} :
    Aligned n version (batch :: rest) ↔
      (0 < batch → n = version) ∧ Aligned (n + batch) (version + 1) rest := by
  constructor
  · intro h
    refine ⟨fun hbatch => h [] batch rest rfl hbatch, fun before other after hrest hother => ?_⟩
    have hcons := h (batch :: before) other after (by rw [hrest]; rfl) hother
    rw [List.sum_cons, List.length_cons] at hcons
    omega
  · rintro ⟨hfirst, hrest⟩ before other after heq hother
    cases before with
    | nil =>
        obtain ⟨rfl, rfl⟩ := List.cons.inj heq
        exact hfirst hother
    | cons head before =>
        obtain ⟨rfl, heq'⟩ := List.cons.inj heq
        have hcons := hrest before other after heq' hother
        rw [List.sum_cons, List.length_cons]
        omega

theorem numbers_length (version : Nat) (batches : List Nat) :
    (numbers version batches).length = batches.sum := by
  induction batches generalizing version with
  | nil => rfl
  | cons batch rest ih =>
      rw [numbers, List.length_append, List.length_range', ih, List.sum_cons]

theorem numbers_eq_range'_iff (n version : Nat) (batches : List Nat) :
    numbers version batches = List.range' (n + 1) batches.sum ↔ Aligned n version batches := by
  induction batches generalizing n version with
  | nil =>
      refine ⟨fun _ before batch after heq _ => ?_, fun _ => rfl⟩
      exact absurd heq (by simp)
  | cons batch rest ih =>
      have hrange : List.range' (n + 1) (batch :: rest).sum =
          List.range' (n + 1) batch ++ List.range' (n + batch + 1) rest.sum := by
        rw [List.sum_cons, ← List.range'_append_1]
        congr 2
        omega
      have hfirst : List.range' (version + 1) batch = List.range' (n + 1) batch ↔
          (0 < batch → n = version) := by
        rw [List.range'_inj]
        omega
      rw [numbers, hrange, aligned_cons, ← hfirst, ← ih (n + batch) (version + 1)]
      constructor
      · intro h
        exact List.append_inj h (by rw [List.length_range', List.length_range'])
      · rintro ⟨hhead, htail⟩
        rw [hhead, htail]

theorem numbers_append (version : Nat) (batches : List Nat) (batch : Nat) :
    numbers version (batches ++ [batch]) =
      numbers version batches ++ List.range' (version + batches.length + 1) batch := by
  induction batches generalizing version with
  | nil => exact List.append_nil _
  | cons first rest ih =>
      rw [List.cons_append, numbers, numbers, ih, List.append_assoc, List.length_cons]
      congr 3
      omega

/-! ## What a command does -/

section Steps

variable {i : Instance} {s t : State J Infra} {c : Delivery.Choice J Infra}
  {command : Command J}

/-- The events of a command with their metadata. -/
def enriched (i : Instance) (s : State J Infra) (c : Delivery.Choice J Infra)
    (command : Command J) (version : Nat) (newEvents : List (Event J)) : List (Event J) :=
  Delivery.enrichFrom (c.metadata command) i.aggregateName i.aggregateId version
    s.aggregate.eventVersion 0 newEvents

theorem length_enriched (version : Nat) (newEvents : List (Event J)) :
    (enriched i s c command version newEvents).length = newEvents.length := by
  unfold enriched
  generalize (0 : Nat) = index
  induction newEvents generalizing index with
  | nil => rfl
  | cons event rest ih => exact congrArg (· + 1) (ih (index + 1))

theorem sequenceNumber_enriched (version : Nat) (newEvents : List (Event J)) :
    (enriched i s c command version newEvents).map Delivery.sequenceNumber? =
      (List.range' (version + 1) newEvents.length).map some := by
  unfold enriched
  suffices h : ∀ index, (Delivery.enrichFrom (c.metadata command) i.aggregateName i.aggregateId
      version s.aggregate.eventVersion index newEvents).map Delivery.sequenceNumber? =
        (List.range' (version + index + 1) newEvents.length).map some from h 0
  induction newEvents with
  | nil => exact fun _ => rfl
  | cons event rest ih =>
      intro index
      have htail := ih (index + 1)
      rw [Delivery.enrichFrom, List.map_cons, htail]
      rfl

/-- What the engine writes into the metadata of an event under the upcasters that are in
force. -/
def Stamped (i : Instance) (entry : Option (UpcasterMap J) × Event J) : Prop :=
  entry.2.metadata.bind (·.version) = entry.1.map (currentEventVersion entry.2.name) ∧
    entry.2.metadata.bind (·.aggregateName) = some i.aggregateName

theorem stamped_enriched (version : Nat) (newEvents : List (Event J)) :
    ∀ event ∈ enriched i s c command version newEvents,
      Stamped i (s.aggregate.upcasters, event) := by
  unfold enriched
  generalize (0 : Nat) = index
  induction newEvents generalizing index with
  | nil => exact fun _ h => absurd h List.not_mem_nil
  | cons event rest ih =>
      intro event' hmem
      rw [Delivery.enrichFrom] at hmem
      cases List.mem_cons.mp hmem with
      | inl heq =>
          subst heq
          exact ⟨rfl, rfl⟩
      | inr hrest => exact ih (index + 1) event' hrest

theorem published_append {events : List (Event J)}
    (h : t.written = s.written ++ events.map fun event => (s.aggregate.upcasters, event)) :
    t.published = s.published ++ events := by
  rw [State.published, h, List.map_append, List.map_map]
  exact congrArg _ (List.map_id _)

variable [JsValue J]

/-- A command that succeeds is a duplicate, or it saves and publishes what it has
decided on what it has loaded. -/
theorem execute_cases (h : execute i s c command = .ok t) :
    t = s ∨ ∃ loaded newEvents newState snapshotStore saved,
      load i s = .ok loaded ∧
      saveSnapshot i s loaded newEvents newState = .ok snapshotStore ∧
      save i s loaded newState (enriched i s c command loaded.version newEvents) = .ok saved ∧
      t = { saved with
        snapshotStore
        written := s.written ++
          (enriched i s c command loaded.version newEvents).map fun event =>
            (s.aggregate.upcasters, event)
        batches := s.batches ++
          [(enriched i s c command loaded.version newEvents).length] } := by
  unfold execute at h
  split_ifs at h with hprocessed
  · exact .inl (Except.ok.inj h).symm
  · right
    obtain ⟨loaded, hload, h⟩ := ExceptMap.bind_eq_ok h
    split at h
    · cases h
    · obtain ⟨result, -, h⟩ := ExceptMap.bind_eq_ok h
      obtain ⟨newState, -, h⟩ := ExceptMap.bind_eq_ok h
      obtain ⟨snapshotStore, hsnapshot, h⟩ := ExceptMap.bind_eq_ok h
      obtain ⟨saved, hsave, h⟩ := ExceptMap.bind_eq_ok h
      split at h
      · cases h
      · exact ⟨loaded, result.toArray, newState, snapshotStore, saved, hload, hsnapshot, hsave,
          (Except.ok.inj h).symm⟩

/-! ## Invariants -/

/-- An event-sourced instance: the stream is what was published. -/
structure EventSourced (i : Instance) (s : State J Infra) : Prop where
  stream : s.eventStore.load i.aggregateName i.aggregateId = s.published
  numbers : s.published.map Delivery.sequenceNumber? =
    (List.range' 1 s.published.length).map some
  snapshot : ∀ snapshot, s.snapshotStore.load i.aggregateName i.aggregateId = some snapshot →
    snapshot.version ≤ s.published.length

/-- A state-stored instance: its version counts the commands. -/
structure StateStored (i : Instance) (s : State J Infra) : Prop where
  version : StateStore.version s.stateStore (compositeKey i.aggregateName i.aggregateId) =
    s.batches.length
  numbers : s.published.map Delivery.sequenceNumber? = (numbers 0 s.batches).map some
  snapshot : s.snapshotStore.load i.aggregateName i.aggregateId = none

theorem load_eventSourced {partialLoad : Bool} (hkind : i.persistence = .eventSourced partialLoad)
    (h : EventSourced i s) {loaded : Loaded J} (hload : load i s = .ok loaded) :
    loaded.version = s.published.length ∧ loaded.isEventSourced = true := by
  unfold load at hload
  split at hload
  · rename_i snapshot hsnapshot
    obtain ⟨strategy, -, hstored⟩ := Option.bind_eq_some_iff.mp hsnapshot
    have hle := h.snapshot snapshot hstored
    have hevents : (if partialLoad
        then s.eventStore.loadAfterVersion i.aggregateName i.aggregateId snapshot.version
        else (s.eventStore.load i.aggregateName i.aggregateId).drop snapshot.version) =
          s.published.drop snapshot.version := by
      rw [← h.stream]
      split_ifs <;> rfl
    unfold loadAfterSnapshot at hload
    rw [hkind] at hload
    dsimp only at hload
    rw [hevents] at hload
    obtain ⟨currentState, -, hloaded⟩ := ExceptMap.bind_eq_ok hload
    obtain rfl := Except.ok.inj hloaded
    refine ⟨?_, rfl⟩
    dsimp only
    rw [List.length_drop]
    omega
  · unfold loadFully at hload
    rw [hkind] at hload
    obtain ⟨currentState, -, hloaded⟩ := ExceptMap.bind_eq_ok hload
    obtain rfl := Except.ok.inj hloaded
    exact ⟨congrArg List.length h.stream, rfl⟩

theorem load_stateStored (hkind : i.persistence = .stateStored) (h : StateStored i s)
    {loaded : Loaded J} (hload : load i s = .ok loaded) :
    loaded.version = s.batches.length ∧ loaded.isEventSourced = false := by
  have hnone : (i.snapshots.bind fun _ =>
      s.snapshotStore.load i.aggregateName i.aggregateId) = none := by
    cases i.snapshots with
    | none => rfl
    | some strategy => exact h.snapshot
  unfold load loadFully at hload
  rw [hnone, hkind] at hload
  obtain rfl := Except.ok.inj hload
  exact ⟨h.version, rfl⟩

omit [JsValue J] in
theorem saveSnapshot_cases {loaded : Loaded J} {newEvents : List (Event J)} {newState : J}
    {snapshotStore : SnapshotStore J}
    (h : saveSnapshot i s loaded newEvents newState = .ok snapshotStore) :
    snapshotStore = s.snapshotStore ∨
      loaded.isEventSourced = true ∧
        snapshotStore = s.snapshotStore.save i.aggregateName i.aggregateId
          { state := newState, version := loaded.version + newEvents.length } := by
  unfold saveSnapshot at h
  split at h
  · rename_i hevents _
    obtain ⟨due, -, h⟩ := ExceptMap.bind_eq_ok h
    obtain rfl := Except.ok.inj h
    split_ifs
    · exact .inr ⟨hevents, rfl⟩
    · exact .inl rfl
  · exact .inl (Except.ok.inj h).symm

theorem EventSourced.execute {partialLoad : Bool}
    (hkind : i.persistence = .eventSourced partialLoad) (h : EventSourced i s)
    (hexecute : execute i s c command = .ok t) : EventSourced i t := by
  rcases execute_cases hexecute with rfl |
    ⟨loaded, newEvents, newState, snapshotStore, saved, hload, hsnapshot, hsave, rfl⟩
  · exact h
  · obtain ⟨hversion, hsourced⟩ := load_eventSourced hkind h hload
    unfold save at hsave
    rw [if_pos hsourced] at hsave
    obtain ⟨eventStore, hstore, hsaved⟩ := ExceptMap.bind_eq_ok hsave
    obtain rfl := Except.ok.inj hsaved
    constructor
    · have hstream := EventStore.stream_of_save hstore (compositeKey i.aggregateName i.aggregateId)
      rw [if_pos rfl] at hstream
      rw [published_append rfl, ← h.stream]
      exact hstream
    · rw [published_append rfl, List.map_append, h.numbers,
        sequenceNumber_enriched, hversion, ← List.map_append, List.length_append,
        length_enriched, ← List.range'_append_1, Nat.add_comm 1]
    · intro snapshot hstored
      rw [published_append rfl, List.length_append, length_enriched]
      rcases saveSnapshot_cases hsnapshot with rfl | ⟨-, rfl⟩
      · have hle := h.snapshot snapshot hstored
        omega
      · have hset := InsertionMap.get_set_self s.snapshotStore
          (compositeKey i.aggregateName i.aggregateId)
          ({ state := newState, version := loaded.version + newEvents.length } : Snapshot J)
        obtain rfl := Option.some.inj (hset.symm.trans hstored)
        exact (congrArg (· + newEvents.length) hversion).le

theorem StateStored.execute (hkind : i.persistence = .stateStored) (h : StateStored i s)
    (hexecute : execute i s c command = .ok t) : StateStored i t := by
  rcases execute_cases hexecute with rfl |
    ⟨loaded, newEvents, newState, snapshotStore, saved, hload, hsnapshot, hsave, rfl⟩
  · exact h
  · obtain ⟨hversion, hstored⟩ := load_stateStored hkind h hload
    unfold save at hsave
    rw [hstored] at hsave
    obtain ⟨stateStore, hstore, hsaved⟩ := ExceptMap.bind_eq_ok hsave
    obtain rfl := Except.ok.inj hsaved
    constructor
    · have hget := StateStore.get_of_save hstore (compositeKey i.aggregateName i.aggregateId)
      rw [if_pos rfl] at hget
      rw [StateStore.version, hget, List.length_append, hversion]
      rfl
    · rw [published_append rfl, List.map_append, sequenceNumber_enriched, numbers_append,
        List.map_append, length_enriched, hversion, Nat.zero_add]
      exact congrArg (· ++ _) h.numbers
    · rcases saveSnapshot_cases hsnapshot with rfl | ⟨hsourced, -⟩
      · exact h.snapshot
      · rw [hstored] at hsourced
        cases hsourced

/-! ## Runs -/

theorem inv_of_run {C : State J Infra → Action J Infra → Prop} {P : State J Infra → Prop}
    (h : Machine.Run (step i) C s t) (hs : P s)
    (hcommand : ∀ s t c command, P s → execute i s c command = .ok t → P t)
    (hdeploy : ∀ s aggregate, P s → C s (.deploy aggregate) → P { s with aggregate }) : P t := by
  apply h.inv hs
  intro s action t hP hC hstep
  cases action with
  | command c command =>
      simp only [step] at hstep
      split_ifs at hstep
      cases hexecute : execute i s c command with
      | error error =>
          rw [hexecute] at hstep
          cases hstep
      | ok next =>
          rw [hexecute] at hstep
          obtain rfl := Option.some.inj hstep
          exact hcommand s next c command hP hexecute
  | deploy aggregate =>
      obtain rfl := Option.some.inj hstep
      exact hdeploy s aggregate hP hC

theorem eventSourced_of_run {partialLoad : Bool} {C : State J Infra → Action J Infra → Prop}
    (hkind : i.persistence = .eventSourced partialLoad) {aggregate : Aggregate J Infra}
    (h : Machine.Run (step i) C { aggregate } s) : EventSourced i s := by
  apply inv_of_run h
  · exact ⟨rfl, rfl, fun _ hsnapshot => by cases hsnapshot⟩
  · intro s t c command hs hexecute
    exact hs.execute hkind hexecute
  · intro s aggregate hs _
    exact ⟨hs.stream, hs.numbers, hs.snapshot⟩

theorem stateStored_of_run (hkind : i.persistence = .stateStored)
    {C : State J Infra → Action J Infra → Prop} {aggregate : Aggregate J Infra}
    (h : Machine.Run (step i) C { aggregate } s) : StateStored i s := by
  apply inv_of_run h
  · exact ⟨rfl, rfl, rfl⟩
  · intro s t c command hs hexecute
    exact hs.execute hkind hexecute
  · intro s aggregate hs _
    exact ⟨hs.version, hs.numbers, hs.snapshot⟩

/-! ## Sequence numbers -/

/-- The events of an instance are numbered from 1 on, without repetition and without
gap, exactly if it is event-sourced or before each command that emits events as many
events as commands have come. -/
theorem sequenceNumbers_iff {aggregate : Aggregate J Infra}
    (h : Machine.Reaches (step i) { aggregate } s) :
    s.published.map Delivery.sequenceNumber? =
        (List.range' 1 s.published.length).map some ↔
      i.persistence ≠ .stateStored ∨ Aligned 0 0 s.batches := by
  cases hkind : i.persistence with
  | eventSourced partialLoad =>
      have hnumbers := (eventSourced_of_run hkind h).numbers
      exact iff_of_true hnumbers (.inl nofun)
  | stateStored =>
      have hnumbers := (stateStored_of_run hkind h).numbers
      have hlength : s.published.length = s.batches.sum := by
        have hmap := congrArg List.length hnumbers
        rwa [List.length_map, List.length_map, numbers_length] at hmap
      rw [hnumbers, hlength, List.map_inj_right (fun _ _ heq => Option.some.inj heq),
        ← numbers_eq_range'_iff]
      exact ⟨.inr, fun hor => hor.resolve_left (not_not.mpr rfl)⟩

end Steps

/-! ## Commands that emit two events -/

open Noddde.Sample (Value)
open Noddde.Delivery.Sample (twice tick)

def counterInstance (aggregateName : String) (persistence : PersistenceKind) : Instance where
  aggregateName
  aggregateId := .string "1"
  persistence
  snapshots := none

/-- A command of that name, with 1 for its payload. -/
def send (name : String) : Action Value Unit :=
  .command tick ⟨name, some (some 1), none, .string "1"⟩

/-- A state-stored instance that gets one event a command. -/
theorem sequenceNumbers_iff_single : ∃ s : State Value Unit,
    Machine.Reaches (step (counterInstance "Counter" .stateStored)) { aggregate := twice } s ∧
      s.published.length = 2 ∧
        s.published.map Delivery.sequenceNumber? =
          (List.range' 1 s.published.length).map some := by
  have hplay : (Machine.play (step (counterInstance "Counter" .stateStored))
      [send "Add", send "Add"] { aggregate := twice }).any (fun s =>
        s.published.length = 2 ∧ s.batches = [1, 1]) := by
    decide +kernel
  obtain ⟨s, hs, hstate⟩ := (Option.any_eq_true _ _).mp hplay
  obtain ⟨hlength, hbatches⟩ := of_decide_eq_true hstate
  have hrun := Machine.run_of_play (C := fun _ _ => True) (fun _ _ _ => trivial) hs
  have haligned : Aligned 0 0 s.batches := by
    rw [hbatches, aligned_cons, aligned_cons]
    refine ⟨fun _ => rfl, fun _ => rfl, fun before batch after heq _ => ?_⟩
    exact absurd heq (by simp)
  exact ⟨s, hrun, hlength, (sequenceNumbers_iff hrun).mpr (.inr haligned)⟩

/-- A state-stored instance gets two events from one command: the next command repeats the
number of the second. -/
theorem sequenceNumbers_repeat : ∃ s : State Value Unit,
    Machine.Reaches (step (counterInstance "Counter" .stateStored)) { aggregate := twice } s ∧
      s.published.map Delivery.sequenceNumber? = [some 1, some 2, some 2] ∧
        s.published.map Delivery.sequenceNumber? ≠
          (List.range' 1 s.published.length).map some := by
  have hplay : (Machine.play (step (counterInstance "Counter" .stateStored))
      [send "AddTwice", send "Add"] { aggregate := twice }).any (fun s =>
        s.published.map Delivery.sequenceNumber? = [some 1, some 2, some 2] ∧
          s.published.map Delivery.sequenceNumber? ≠
            (List.range' 1 s.published.length).map some) := by
    decide +kernel
  obtain ⟨s, hs, hstate⟩ := (Option.any_eq_true _ _).mp hplay
  exact ⟨s, Machine.run_of_play (fun _ _ _ => trivial) hs, of_decide_eq_true hstate⟩

section Schema

variable {i : Instance} {s t : State J Infra} {c : Delivery.Choice J Infra}
  {command : Command J} [JsValue J]

/-! ## Schema versions -/

def chain (upcasters : Option (UpcasterMap J)) (eventName : String) : UpcasterChain J :=
  (upcasters.bind fun upcasters => upcasters eventName).getD []

/-- Every chain goes on where the old one ends. -/
def Extends (old new : Option (UpcasterMap J)) : Prop :=
  ∀ eventName, chain old eventName <+: chain new eventName

/-- A deployment extends the upcaster chains. -/
def Deploys (s : State J Infra) : Action J Infra → Prop
  | .command _ _ => True
  | .deploy aggregate => Extends s.aggregate.upcasters aggregate.upcasters

def advance (steps : UpcasterChain J) (event : Event J) : Except Err (Event J) := do
  let payload ← steps.foldlM (fun payload step => step payload) event.payload
  .ok { event with payload }

/-- The event in the schema that is current: advanced by the steps that its own chain has
not had. -/
def State.current (s : State J Infra) (entry : Option (UpcasterMap J) × Event J) :
    Except Err (Event J) :=
  advance ((chain s.aggregate.upcasters entry.2.name).drop (chain entry.1 entry.2.name).length)
    entry.2

omit [JsValue J] in
theorem advance_nil (event : Event J) : advance [] event = .ok event := rfl

/-! ### Members of `Object.prototype` -/

/-- The map has no chain of its own under a name that `Object.prototype` has. -/
def Inherits (upcasters : Option (UpcasterMap J)) (eventName : String) : Prop :=
  ∃ map, upcasters = some map ∧ map eventName = none ∧ (objectPrototype eventName).isSome

def found (upcasters : Option (UpcasterMap J)) (eventName : String) : UpcasterChain J :=
  ((upcasters.bind fun map => map.get eventName).map Member.steps).getD []

/-- The steps that are left for an event written under `old`: none of them if it is
stamped `NaN`. -/
def left (old new : Option (UpcasterMap J)) (eventName : String) : UpcasterChain J :=
  if old.map (currentEventVersion eventName) = some .nan then []
  else (found new eventName).drop (found old eventName).length

/-- The steps that are left of a chain for an event that was written while the member of
`Object.prototype` stood in the place of the chain. -/
def leftOver (eventName : String) (steps : UpcasterChain J) : UpcasterChain J :=
  match objectPrototype eventName with
  | some (some length) => steps.drop length
  | _ => []

/-- No member of `Object.prototype` gets between an event written under `old` and its
readers under `new`: none that has a length is found now, unless it was found when the event
was written; and where a chain has taken the place of one, the steps that are passed over
change nothing. -/
def Legible (old new : Option (UpcasterMap J)) (event : Event J) : Prop :=
  (Inherits new event.name → ¬ Inherits old event.name →
    ∀ length, objectPrototype event.name ≠ some (some (length + 1))) ∧
  (Inherits old event.name → ¬ Inherits new event.name →
    advance (leftOver event.name (chain new event.name)) event =
      advance (chain new event.name) event)

section Inherited

omit [JsValue J]

theorem legible_of_ordinary {old new : Option (UpcasterMap J)} {event : Event J}
    (h : objectPrototype event.name = none) : Legible old new event := by
  constructor
  · intro _ _ length
    rw [h]
    exact nofun
  · rintro ⟨map, -, -, hsome⟩
    rw [h] at hsome
    cases hsome

theorem found_of_not_inherits {upcasters : Option (UpcasterMap J)} {eventName : String}
    (h : ¬ Inherits upcasters eventName) :
    found upcasters eventName = chain upcasters eventName ∧
      upcasters.map (currentEventVersion eventName) ≠ some .nan := by
  cases upcasters with
  | none => exact ⟨rfl, nofun⟩
  | some map =>
      unfold found chain currentEventVersion
      simp only [Option.bind_some, Option.map_some, UpcasterMap.get]
      cases hown : map eventName with
      | some steps => exact ⟨rfl, nofun⟩
      | none =>
          cases hmember : objectPrototype eventName with
          | none => exact ⟨rfl, nofun⟩
          | some length => exact absurd ⟨map, rfl, hown, by simp [hmember]⟩ h

theorem chain_of_inherits {upcasters : Option (UpcasterMap J)} {eventName : String}
    (h : Inherits upcasters eventName) : chain upcasters eventName = [] := by
  obtain ⟨map, rfl, hown, -⟩ := h
  exact congrArg (Option.getD · []) hown

theorem found_of_inherits {upcasters : Option (UpcasterMap J)} {eventName : String}
    {length : Option Nat} (h : Inherits upcasters eventName)
    (hmember : objectPrototype eventName = some length) :
    found upcasters eventName = (Member.inherited length).steps ∧
      upcasters.map (currentEventVersion eventName) =
        some (Member.inherited (J := J) length).currentVersion := by
  obtain ⟨map, rfl, hown, -⟩ := h
  constructor
  · simp [found, UpcasterMap.get, hown, hmember]
  · simp [currentEventVersion, UpcasterMap.get, hown, hmember]

/-- The version that an event is stamped with is one more than the length of what was
found. -/
theorem version_eq (upcasters : Option (UpcasterMap J)) (eventName : String) :
    (upcasters.map (currentEventVersion eventName)).getD (.number 1) =
      if upcasters.map (currentEventVersion eventName) = some .nan then .nan
      else .number ((found upcasters eventName).length + 1) := by
  cases upcasters with
  | none => rfl
  | some map =>
      cases hget : map.get eventName with
      | none =>
          have hversion : currentEventVersion eventName map = .number 1 := by
            simp [currentEventVersion, hget]
          simp [found, hget, hversion]
      | some member =>
          have hversion : currentEventVersion eventName map = member.currentVersion := by
            simp [currentEventVersion, hget]
          cases hlength : member.length with
          | none => simp [hversion, Member.currentVersion, hlength]
          | some length =>
              simp [found, hget, hversion, Member.currentVersion, Member.length_steps, hlength]

/-- The loop of `upcastEvent` begins where what was found for the event ended. -/
theorem upcastEvent_stamped {upcasters : UpcasterMap J} {old : Option (UpcasterMap J)}
    {event : Event J}
    (hversion : event.metadata.bind (·.version) = old.map (currentEventVersion event.name)) :
    upcastEvent event upcasters = advance (left old (some upcasters) event.name) event := by
  unfold upcastEvent left
  rw [hversion, version_eq]
  cases hget : upcasters.get event.name with
  | none =>
      have hnil : found (some upcasters) event.name = [] := by simp [found, hget]
      rw [hnil, List.drop_nil, ite_self, advance_nil]
  | some member =>
      have hfound : found (some upcasters) event.name = member.steps := by simp [found, hget]
      have hsteps := member.length_steps
      rw [hfound]
      cases hlength : member.length with
      | none =>
          have hnil : member.steps = [] :=
            List.length_eq_zero_iff.mp (by rw [hsteps, hlength]; rfl)
          rw [hnil, List.drop_nil, ite_self, advance_nil]
          simp [Member.currentVersion, hlength]
      | some length =>
          rw [hlength, Option.getD_some] at hsteps
          simp only [Member.currentVersion, hlength, Option.some.injEq]
          by_cases hnan : old.map (currentEventVersion event.name) = some .nan
          · simp [hnan, advance_nil]
          · simp only [if_neg hnan, ge_iff_le, SchemaVersion.number_le_number]
            split_ifs with hempty hcurrent
            · have hnil : member.steps = [] := List.length_eq_zero_iff.mp (hsteps.trans hempty)
              rw [hnil, List.drop_nil, advance_nil]
            · have hle : member.steps.length ≤ (found old event.name).length := by omega
              rw [List.drop_eq_nil_of_le hle, advance_nil]
            · rfl

theorem upcast_stamped {aggregate : Aggregate J Infra}
    {entries : List (Option (UpcasterMap J) × Event J)}
    (h : ∀ entry ∈ entries, entry.2.metadata.bind (·.version) =
      entry.1.map (currentEventVersion entry.2.name)) :
    aggregate.upcast (entries.map Prod.snd) = entries.mapM fun entry =>
      advance (left entry.1 aggregate.upcasters entry.2.name) entry.2 := by
  unfold Aggregate.upcast
  cases aggregate.upcasters with
  | none =>
      have hnil : ∀ entry : Option (UpcasterMap J) × Event J,
          advance (left entry.1 none entry.2.name) entry.2 = .ok entry.2 := by
        intro entry
        have hfound : found (none : Option (UpcasterMap J)) entry.2.name = [] := rfl
        rw [left, hfound, List.drop_nil, ite_self, advance_nil]
      simp only [hnil]
      induction entries with
      | nil => rfl
      | cons entry rest ih =>
          have hrest := ih fun entry' hmem => h entry' (List.mem_cons_of_mem _ hmem)
          rw [List.mapM_cons, ← hrest]
          rfl
  | some upcasters =>
      dsimp only
      unfold upcastEvents
      rw [List.mapM_map]
      exact ExceptMap.mapM_congr fun entry hmem => upcastEvent_stamped (h entry hmem)

/-- What is left for an event is what its chain has grown by, exactly if it is legible. -/
theorem left_eq_iff {old new : Option (UpcasterMap J)} {event : Event J}
    (hextends : Extends old new) :
    advance (left old new event.name) event =
        advance ((chain new event.name).drop (chain old event.name).length) event ↔
      Legible old new event := by
  by_cases hnew : Inherits new event.name
  · have hchain := chain_of_inherits hnew
    obtain ⟨length, hmember⟩ := Option.isSome_iff_exists.mp hnew.choose_spec.2.2
    have hfound := (found_of_inherits hnew hmember).1
    rw [hchain, List.drop_nil, advance_nil]
    by_cases hold : Inherits old event.name
    · have hleft : left old new event.name = [] := by
        obtain ⟨hfound', -⟩ := found_of_inherits hold hmember
        rw [left, hfound, hfound', List.drop_length, ite_self]
      rw [hleft, advance_nil]
      exact iff_of_true rfl ⟨fun _ hnot => absurd hold hnot, fun _ hnot => absurd hnew hnot⟩
    · obtain ⟨hfound', hstamp⟩ := found_of_not_inherits hold
      have hnil : chain old event.name = [] := by
        have hprefix := hextends event.name
        rwa [hchain, List.prefix_nil] at hprefix
      have hleft : left old new event.name = (Member.inherited length).steps := by
        rw [left, if_neg hstamp, hfound, hfound', hnil]
        rfl
      rw [hleft]
      constructor
      · intro hok
        refine ⟨fun _ _ n heq => ?_, fun hyes => absurd hyes hold⟩
        obtain rfl := Option.some.inj (hmember.symm.trans heq)
        cases hok
      · rintro ⟨hshort, -⟩
        have hzero : (Member.inherited (J := J) length).steps = [] := by
          cases length with
          | none => rfl
          | some length =>
              cases length with
              | zero => rfl
              | succ n => exact absurd hmember (hshort hnew hold n)
        rw [hzero, advance_nil]
  · have hfound := (found_of_not_inherits hnew).1
    by_cases hold : Inherits old event.name
    · obtain ⟨length, hmember⟩ := Option.isSome_iff_exists.mp hold.choose_spec.2.2
      obtain ⟨hfound', hstamp⟩ := found_of_inherits hold hmember
      have hleft : left old new event.name = leftOver event.name (chain new event.name) := by
        rw [left, hstamp, hfound, hfound', leftOver, hmember]
        cases length with
        | none => rfl
        | some length => simp [Member.currentVersion, Member.length, Member.length_steps]
      rw [hleft, chain_of_inherits hold, List.length_nil, List.drop_zero]
      exact ⟨fun heq => ⟨fun hyes => absurd hyes hnew, fun _ _ => heq⟩, fun h => h.2 hold hnew⟩
    · obtain ⟨hfound', hstamp⟩ := found_of_not_inherits hold
      rw [left, if_neg hstamp, hfound, hfound']
      exact iff_of_true rfl ⟨fun hyes => absurd hyes hnew, fun hyes => absurd hyes hold⟩

/-- An event without a chain is left alone, exactly if no member of `Object.prototype` of
its name has a length that is beyond its version. -/
theorem upcastEvent_of_none {event : Event J} {upcasters : UpcasterMap J}
    (h : upcasters event.name = none) :
    upcastEvent event upcasters = .ok event ↔
      ∀ length, objectPrototype event.name = some (some (length + 1)) →
        (event.metadata.bind (·.version)).getD (.number 1) = .nan ∨
          .number (length + 2) ≤ (event.metadata.bind (·.version)).getD (.number 1) := by
  unfold upcastEvent
  simp only [UpcasterMap.get, h]
  cases objectPrototype event.name with
  | none => simp
  | some length =>
      cases length with
      | none => simp [Member.length, Member.currentVersion]
      | some length =>
          cases length with
          | zero => simp [Member.length]
          | succ n =>
              generalize (event.metadata.bind (·.version)).getD (.number 1) = version
              cases version with
              | nan => simp [Member.length, Member.currentVersion]
              | number version =>
                  by_cases hle : n + 2 ≤ version
                  · simp [Member.length, Member.currentVersion, hle]
                  · refine iff_of_false ?_ fun hall => ?_
                    · cases version with
                      | zero => simp [Member.length, Member.currentVersion]
                      | succ first =>
                          obtain ⟨more, hmore⟩ : ∃ more, n + 1 - first = more + 1 :=
                            ⟨n - first, by omega⟩
                          simp only [Option.map_some, Member.length, Member.currentVersion,
                            Member.steps, Option.getD_some, List.drop_replicate, hmore]
                          simp [hle, List.replicate_succ, bind, Except.bind]
                    · rcases hall n rfl with hnan | hbeyond
                      · cases hnan
                      · exact hle hbeyond

/-- An event at or beyond the current version is left alone. -/
theorem upcastEvent_of_le {event : Event J} {upcasters : UpcasterMap J}
    (h : currentEventVersion event.name upcasters ≤
      (event.metadata.bind (·.version)).getD (.number 1)) :
    upcastEvent event upcasters = .ok event := by
  unfold upcastEvent
  unfold currentEventVersion at h
  cases hget : upcasters.get event.name with
  | none => rfl
  | some member =>
      rw [hget] at h
      dsimp only at h ⊢
      rw [if_pos h, ite_self]

theorem upcastEvents_of_le {events : List (Event J)} {upcasters : UpcasterMap J}
    (h : ∀ event ∈ events, currentEventVersion event.name upcasters ≤
      (event.metadata.bind (·.version)).getD (.number 1)) :
    upcastEvents events upcasters = .ok events := by
  unfold upcastEvents
  rw [ExceptMap.mapM_congr fun event hmem => upcastEvent_of_le (h event hmem)]
  have hid := ExceptMap.mapM_map_ok (f := fun event : Event J => (.ok event : Except Err _))
    (g := id) (v := id) (fun _ => rfl) events
  rwa [List.map_id] at hid

end Inherited

/-- Whoever reads the stream gets every event in the current schema: the steps by which
the chain has grown since the event was written, in order and each of them once. -/
structure ReadsCurrent (i : Instance) (s : State J Infra) : Prop where
  extension : ∀ entry ∈ s.written, ∃ steps,
    chain s.aggregate.upcasters entry.2.name = chain entry.1 entry.2.name ++ steps ∧
      s.current entry = advance steps entry.2
  loaded : ∀ version, s.aggregate.upcast (s.published.drop version) =
    (s.written.drop version).mapM s.current
  full : loadFully i s = do
    let events ← s.written.mapM s.current
    let currentState ← s.aggregate.applyEvents s.aggregate.initialState events
    .ok
      { currentState
        version := s.written.length
        isEventSourced := true
        lastSnapshotVersion := 0 }
  afterSnapshot : ∀ snapshot, loadAfterSnapshot i s snapshot = do
    let events ← (s.written.drop snapshot.version).mapM s.current
    let currentState ← s.aggregate.applyEvents snapshot.state events
    .ok
      { currentState
        version := snapshot.version + (s.written.drop snapshot.version).length
        isEventSourced := true
        lastSnapshotVersion := snapshot.version }
  rebuild : ∀ ctx : ReadModel.RebuildContext J Infra,
    ctx.aggregateUpcasters i.aggregateName = s.aggregate.upcasters →
      ∀ entry ∈ s.written, ReadModel.upcastForReplay ctx entry.2 = s.current entry

omit [JsValue J] in
theorem save_aggregate {loaded : Loaded J} {newState : J} {events : List (Event J)}
    (h : save i s loaded newState events = .ok t) : t.aggregate = s.aggregate := by
  unfold save at h
  split_ifs at h
  · obtain ⟨eventStore, -, hsaved⟩ := ExceptMap.bind_eq_ok h
    rw [← Except.ok.inj hsaved]
  · obtain ⟨stateStore, -, hsaved⟩ := ExceptMap.bind_eq_ok h
    rw [← Except.ok.inj hsaved]

theorem command_aggregate (h : step i s (.command c command) = some t) :
    t.aggregate = s.aggregate := by
  simp only [step] at h
  split_ifs at h
  cases hexecute : execute i s c command with
  | error error =>
      rw [hexecute] at h
      cases h
  | ok next =>
      rw [hexecute] at h
      obtain rfl := Option.some.inj h
      rcases execute_cases hexecute with rfl |
        ⟨loaded, newEvents, newState, snapshotStore, saved, -, -, hsave, rfl⟩
      · rfl
      · have haggregate := save_aggregate hsave
        exact haggregate

/-- Events are stamped, and the chains have only grown since. -/
def Grown (i : Instance) (s : State J Infra) : Prop :=
  ∀ entry ∈ s.written, Stamped i entry ∧ Extends entry.1 s.aggregate.upcasters

theorem grown_of_run {aggregate : Aggregate J Infra}
    (h : Machine.Run (step i) Deploys { aggregate } s) : Grown i s := by
  apply inv_of_run h
  · exact fun _ hmem => absurd hmem List.not_mem_nil
  · intro s t c command hs hexecute
    rcases execute_cases hexecute with rfl |
      ⟨loaded, newEvents, newState, snapshotStore, saved, -, -, hsave, rfl⟩
    · exact hs
    · have haggregate := save_aggregate hsave
      intro entry hmem
      rw [show ({ saved with snapshotStore, written := _, batches := _ } :
        State J Infra).aggregate = s.aggregate from haggregate]
      rcases List.mem_append.mp hmem with hold | hnew
      · exact hs entry hold
      · obtain ⟨event, hevent, rfl⟩ := List.mem_map.mp hnew
        exact ⟨stamped_enriched _ _ event hevent, fun _ => List.prefix_rfl⟩
  · intro s aggregate hs hdeploy entry hmem
    have hentry := hs entry hmem
    exact ⟨hentry.1, fun eventName => (hentry.2 eventName).trans (hdeploy eventName)⟩

omit [JsValue J] in
theorem Grown.upcast (h : Grown i s) (version : Nat) :
    s.aggregate.upcast (s.published.drop version) = (s.written.drop version).mapM fun entry =>
      advance (left entry.1 s.aggregate.upcasters entry.2.name) entry.2 := by
  rw [State.published, ← List.map_drop]
  exact upcast_stamped fun entry hmem => (h entry (List.mem_of_mem_drop hmem)).1.1

omit [JsValue J] in
theorem Grown.left_eq_iff (h : Grown i s) {entry : Option (UpcasterMap J) × Event J}
    (hmem : entry ∈ s.written) :
    advance (left entry.1 s.aggregate.upcasters entry.2.name) entry.2 = s.current entry ↔
      Legible entry.1 s.aggregate.upcasters entry.2 :=
  Lifetime.left_eq_iff (h entry hmem).2

omit [JsValue J] in
theorem Grown.loaded (h : Grown i s)
    (hlegible : ∀ entry ∈ s.written, Legible entry.1 s.aggregate.upcasters entry.2)
    (version : Nat) :
    s.aggregate.upcast (s.published.drop version) =
      (s.written.drop version).mapM s.current := by
  rw [h.upcast]
  refine ExceptMap.mapM_congr fun entry hmem => ?_
  have hwritten := List.mem_of_mem_drop hmem
  exact (h.left_eq_iff hwritten).mpr (hlegible entry hwritten)

omit [JsValue J] in
/-- A rebuild reads an event of an aggregate that has a name as the lifecycle does. -/
theorem Grown.upcastForReplay (h : Grown i s) (hname : i.aggregateName ≠ "")
    (ctx : ReadModel.RebuildContext J Infra)
    (hctx : ctx.aggregateUpcasters i.aggregateName = s.aggregate.upcasters)
    {entry : Option (UpcasterMap J) × Event J} (hmem : entry ∈ s.written) :
    ReadModel.upcastForReplay ctx entry.2 =
      advance (left entry.1 s.aggregate.upcasters entry.2.name) entry.2 := by
  obtain ⟨⟨hversion, haggregate⟩, -⟩ := h entry hmem
  unfold ReadModel.upcastForReplay
  rw [haggregate]
  dsimp only
  rw [if_neg hname, hctx]
  cases s.aggregate.upcasters with
  | none =>
      have hfound : found (none : Option (UpcasterMap J)) entry.2.name = [] := rfl
      rw [left, hfound, List.drop_nil, ite_self, advance_nil]
  | some upcasters => exact upcastEvent_stamped hversion

omit [JsValue J] in
/-- Of an aggregate without a name, a rebuild reads every event as it is. -/
theorem Grown.upcastForReplay_unnamed (h : Grown i s) (hname : i.aggregateName = "")
    (ctx : ReadModel.RebuildContext J Infra) {entry : Option (UpcasterMap J) × Event J}
    (hmem : entry ∈ s.written) : ReadModel.upcastForReplay ctx entry.2 = .ok entry.2 := by
  rw [ReadModel.upcastForReplay, (h entry hmem).1.2, hname]
  rfl

omit [JsValue J] in
theorem Grown.extension (h : Grown i s) {entry : Option (UpcasterMap J) × Event J}
    (hmem : entry ∈ s.written) : ∃ steps,
      chain s.aggregate.upcasters entry.2.name = chain entry.1 entry.2.name ++ steps ∧
        s.current entry = advance steps entry.2 := by
  obtain ⟨steps, hsteps⟩ := (h entry hmem).2 entry.2.name
  refine ⟨steps, hsteps.symm, ?_⟩
  rw [State.current, ← hsteps, List.drop_left]

theorem loadFully_of_loaded {partialLoad : Bool}
    (hkind : i.persistence = .eventSourced partialLoad)
    (hstream : s.eventStore.load i.aggregateName i.aggregateId = s.published)
    (hloaded : s.aggregate.upcast s.published = s.written.mapM s.current) :
    loadFully i s = (do
      let events ← s.written.mapM s.current
      let currentState ← s.aggregate.applyEvents s.aggregate.initialState events
      .ok
        { currentState
          version := s.written.length
          isEventSourced := true
          lastSnapshotVersion := 0 }) := by
  have hlength : s.published.length = s.written.length := List.length_map _
  unfold Lifetime.loadFully
  rw [hkind]
  dsimp only
  rw [hstream, Aggregate.replay, Aggregate.replayFrom, hloaded, hlength, bind_assoc]

omit [JsValue J] in
theorem loadAfterSnapshot_of_loaded {partialLoad : Bool}
    (hkind : i.persistence = .eventSourced partialLoad)
    (hstream : s.eventStore.load i.aggregateName i.aggregateId = s.published)
    (snapshot : Snapshot J)
    (hloaded : s.aggregate.upcast (s.published.drop snapshot.version) =
      (s.written.drop snapshot.version).mapM s.current) :
    loadAfterSnapshot i s snapshot = (do
      let events ← (s.written.drop snapshot.version).mapM s.current
      let currentState ← s.aggregate.applyEvents snapshot.state events
      .ok
        { currentState
          version := snapshot.version + (s.written.drop snapshot.version).length
          isEventSourced := true
          lastSnapshotVersion := snapshot.version }) := by
  have hevents : (if partialLoad
      then s.eventStore.loadAfterVersion i.aggregateName i.aggregateId snapshot.version
      else (s.eventStore.load i.aggregateName i.aggregateId).drop snapshot.version) =
        s.published.drop snapshot.version := by
    rw [← hstream]
    split_ifs <;> rfl
  have hlength : (s.published.drop snapshot.version).length =
      (s.written.drop snapshot.version).length := by
    rw [State.published, ← List.map_drop, List.length_map]
  unfold Lifetime.loadAfterSnapshot
  rw [hkind]
  dsimp only
  rw [hevents, Aggregate.replayFrom, hloaded, hlength, bind_assoc]

/-- A rebuild of a projection that handles no event. -/
def bareRebuild (aggregate : Aggregate J Infra) : ReadModel.RebuildContext J Infra where
  projectionName := ""
  projection := { on := ∅, initialView := aggregate.initialState, consistency := .eventual }
  events := []
  subscriptions := []
  aggregateUpcasters _ := aggregate.upcasters
  progressInterval := 1
  mayReject := false

omit [JsValue J] in
/-- Where the current schema changes no event, the lifecycle reads every event for itself. -/
theorem Grown.left_of_loaded (h : Grown i s)
    (hcurrent : ∀ entry ∈ s.written, s.current entry = .ok entry.2)
    (hloaded : s.aggregate.upcast s.published = s.written.mapM s.current)
    {entry : Option (UpcasterMap J) × Event J} (hmem : entry ∈ s.written) :
    advance (left entry.1 s.aggregate.upcasters entry.2.name) entry.2 = s.current entry := by
  have hread : s.written.mapM s.current = .ok s.published :=
    ExceptMap.mapM_of_forall₂
      (List.forall₂_map_right_iff.mpr (List.forall₂_same.mpr hcurrent))
  have hupcast := h.upcast 0
  rw [List.drop_zero, List.drop_zero, hloaded, hread] at hupcast
  have hall := ExceptMap.forall₂_of_mapM hupcast.symm
  rw [hcurrent entry hmem]
  exact List.forall₂_same.mp (List.forall₂_map_right_iff.mp hall) entry hmem

/-- The events of an aggregate are read in the current schema, whatever chains were
deployed while they were written, exactly if the aggregate has a name or no event lacks a
step, since a rebuild takes the empty name for none, and if no member of `Object.prototype`
is taken for a chain. -/
theorem schema_iff {partialLoad : Bool} (hkind : i.persistence = .eventSourced partialLoad)
    {aggregate : Aggregate J Infra} (h : Machine.Run (step i) Deploys { aggregate } s) :
    (∀ (event : Event J) (upcasters : UpcasterMap J), upcasters event.name = none →
      (upcastEvent event upcasters = .ok event ↔
        ∀ length, objectPrototype event.name = some (some (length + 1)) →
          (event.metadata.bind (·.version)).getD (.number 1) = .nan ∨
            .number (length + 2) ≤ (event.metadata.bind (·.version)).getD (.number 1))) ∧
    (∀ (events : List (Event J)) (upcasters : UpcasterMap J),
      (∀ event ∈ events, currentEventVersion event.name upcasters ≤
        (event.metadata.bind (·.version)).getD (.number 1)) →
      upcastEvents events upcasters = .ok events) ∧
    (ReadsCurrent i s ↔
      (i.aggregateName ≠ "" ∨ ∀ entry ∈ s.written, s.current entry = .ok entry.2) ∧
        ∀ entry ∈ s.written, Legible entry.1 s.aggregate.upcasters entry.2) := by
  have hgrown := grown_of_run h
  have hstream := (eventSourced_of_run hkind h).stream
  refine ⟨fun _ _ => upcastEvent_of_none, fun _ _ => upcastEvents_of_le, ?_, ?_⟩
  · intro hreads
    by_cases hname : i.aggregateName = ""
    · have hcurrent : ∀ entry ∈ s.written, s.current entry = .ok entry.2 := by
        intro entry hmem
        rw [← hreads.rebuild (bareRebuild s.aggregate) rfl entry hmem]
        exact hgrown.upcastForReplay_unnamed hname _ hmem
      refine ⟨.inr hcurrent, fun entry hmem => (hgrown.left_eq_iff hmem).mp ?_⟩
      exact hgrown.left_of_loaded hcurrent (hreads.loaded 0) hmem
    · refine ⟨.inl hname, fun entry hmem => (hgrown.left_eq_iff hmem).mp ?_⟩
      rw [← hreads.rebuild (bareRebuild s.aggregate) rfl entry hmem]
      exact (hgrown.upcastForReplay hname _ rfl hmem).symm
  · rintro ⟨hnamed, hlegible⟩
    have hloaded := hgrown.loaded hlegible
    constructor
    · exact fun entry hmem => hgrown.extension hmem
    · exact hloaded
    · exact loadFully_of_loaded hkind hstream (hloaded 0)
    · exact fun snapshot => loadAfterSnapshot_of_loaded hkind hstream snapshot (hloaded _)
    · intro ctx hctx entry hmem
      by_cases hname : i.aggregateName = ""
      · rw [hnamed.resolve_left (not_not.mpr hname) entry hmem]
        exact hgrown.upcastForReplay_unnamed hname ctx hmem
      · rw [hgrown.upcastForReplay hname ctx hctx hmem]
        exact (hgrown.left_eq_iff hmem).mpr (hlegible entry hmem)

end Schema

/-! ## An aggregate that gets a chain -/

/-- The counter once payloads are doubled. -/
def doubled : Aggregate Value Unit :=
  { twice with
    upcasters := some fun eventName =>
      if eventName = "Added" then some [fun payload => .ok (payload.map (2 * ·))] else none }

/-- One event before the chain and one under it. -/
def deployment : List (Action Value Unit) := [send "Add", .deploy doubled, send "Add"]

theorem run_deployment {i : Instance} {s : State Value Unit}
    (h : Machine.play (step i) deployment { aggregate := twice } = some s) :
    Machine.Run (step i) Deploys { aggregate := twice } s := by
  obtain ⟨s₁, hfirst, h⟩ := Option.bind_eq_some_iff.mp h
  obtain ⟨s₂, hdeploy, h⟩ := Option.bind_eq_some_iff.mp h
  obtain ⟨s₃, hsecond, h⟩ := Option.bind_eq_some_iff.mp h
  obtain rfl := Option.some.inj h
  have hextends : Deploys s₁ (.deploy doubled) := by
    rw [Deploys, command_aggregate hfirst]
    exact fun _ => List.nil_prefix
  have hsend : ∀ s, Deploys s (send "Add") := fun _ => trivial
  exact ((Machine.Run.refl.tail (hsend _) hfirst).tail hextends hdeploy).tail (hsend _) hsecond

/-- The first event is doubled when the stream is loaded, the second one is not. -/
theorem schema_iff_doubled : ∃ s : State Value Unit,
    Machine.Run (step (counterInstance "Counter" (.eventSourced true))) Deploys
      { aggregate := twice } s ∧
    s.written.map (fun entry => (s.current entry).toOption.map (·.payload)) =
      [some (some 2), some (some 1)] ∧
    ReadsCurrent (counterInstance "Counter" (.eventSourced true)) s := by
  have hplay : (Machine.play (step (counterInstance "Counter" (.eventSourced true))) deployment
      { aggregate := twice }).any (fun s =>
        s.written.map (fun entry => (s.current entry).toOption.map (·.payload)) =
          [some (some 2), some (some 1)] ∧
        ∀ entry ∈ s.written, objectPrototype entry.2.name = none) := by
    decide +kernel
  obtain ⟨s, hs, hfacts⟩ := (Option.any_eq_true _ _).mp hplay
  obtain ⟨hcurrent, hnames⟩ := of_decide_eq_true hfacts
  have hrun := run_deployment hs
  exact ⟨s, hrun, hcurrent, (schema_iff rfl hrun).2.2.mpr
    ⟨.inl (by decide), fun entry hmem => legible_of_ordinary (hnames entry hmem)⟩⟩

/-- An aggregate whose only event has the name of a member of `Object.prototype`. -/
def builder : Aggregate Value Unit :=
  { twice with
    decide := fun _ => some fun _ _ _ => .ok (.single ⟨"constructor", some 1, none⟩) }

/-- Of an aggregate with the empty name, a rebuild reads the first event as it was
written.  And once there is a chain for another event, an event that is named after a member
of `Object.prototype` cannot be loaded any more. -/
theorem schema_unnamed :
    (∃ s : State Value Unit,
      Machine.Run (step (counterInstance "" (.eventSourced true))) Deploys
        { aggregate := twice } s ∧
      ¬ ReadsCurrent (counterInstance "" (.eventSourced true)) s) ∧
    ∃ s : State Value Unit,
      Machine.Run (step (counterInstance "Counter" (.eventSourced true))) Deploys
        { aggregate := builder } s ∧
      (∃ error, loadFully (counterInstance "Counter" (.eventSourced true)) s = .error error) ∧
      ¬ ReadsCurrent (counterInstance "Counter" (.eventSourced true)) s := by
  constructor
  · have hplay : (Machine.play (step (counterInstance "" (.eventSourced true))) deployment
        { aggregate := twice }).any (fun s =>
          s.written.any fun entry => entry.2.metadata.bind (·.aggregateName) = some "" ∧
            ((s.current entry).toOption.map (·.payload)) ≠ some entry.2.payload) := by
      decide +kernel
    obtain ⟨s, hs, hstale⟩ := (Option.any_eq_true _ _).mp hplay
    refine ⟨s, run_deployment hs, fun hreads => ?_⟩
    obtain ⟨entry, hmem, hentry⟩ := List.any_eq_true.mp hstale
    obtain ⟨hname, hpayload⟩ := of_decide_eq_true hentry
    have hrebuild := hreads.rebuild (bareRebuild s.aggregate) rfl entry hmem
    rw [ReadModel.upcastForReplay, hname] at hrebuild
    rw [← hrebuild] at hpayload
    exact hpayload rfl
  · have hplay : (step (counterInstance "Counter" (.eventSourced true))
        { aggregate := builder } (send "Build")).any (fun s =>
          (loadFully (counterInstance "Counter" (.eventSourced true))
            { s with aggregate := doubled }).toOption.isNone ∧
          (doubled.upcast s.published).toOption.map List.length ≠
            (s.written.mapM (State.current { s with aggregate := doubled })).toOption.map
              List.length) := by
      decide +kernel
    obtain ⟨s, hs, hfacts⟩ := (Option.any_eq_true _ _).mp hplay
    obtain ⟨hload, hstuck⟩ := of_decide_eq_true hfacts
    have hdeploy : Deploys s (.deploy doubled) := by
      rw [Deploys, command_aggregate hs]
      exact fun _ => List.nil_prefix
    refine ⟨{ s with aggregate := doubled },
      (Machine.Run.refl.tail (show Deploys _ (send "Build") from trivial) hs).tail hdeploy rfl,
      ?_, fun hreads => hstuck ?_⟩
    · cases hloaded : loadFully (counterInstance "Counter" (.eventSourced true))
          { s with aggregate := doubled } with
      | error error => exact ⟨error, rfl⟩
      | ok loaded =>
          rw [hloaded] at hload
          cases hload
    · exact congrArg (fun read => read.toOption.map List.length) (hreads.loaded 0)

end Noddde.Lifetime
