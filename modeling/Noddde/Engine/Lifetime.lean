import Noddde.Engine.Delivery
/-!
# The life of one aggregate instance

Commands one after another on an in-memory persistence, of either kind, while new
versions of the aggregate are deployed in between.
-/

namespace Noddde.Lifetime

variable {J Infra : Type}

structure Instance where
  aggregateName : String
  aggregateId : ID
  persistence : PersistenceKind
  snapshots : Option SnapshotStrategy

/-- `written` and `batches` are history variables. -/
structure State (J Infra : Type) where
  aggregate : Aggregate J Infra
  eventStore : EventStore J := ∅
  stateStore : StateStore J := ∅
  snapshotStore : SnapshotStore J := ∅
  /-- The published events in their order, each with the upcasters that were in force. -/
  written : List (Option (UpcasterMap J) × Event J) := []
  /-- How many events the commands have emitted, one after another. -/
  batches : List Nat := []

def State.published (s : State J Infra) : List (Event J) := s.written.map Prod.snd

/-! ## The command lifecycle -/

section Lifecycle

variable [JsValue J] (i : Instance) (s : State J Infra)

def loadAfterSnapshot (snapshot : Snapshot J) : Except Err (Loaded J) :=
  match i.persistence with
  | .eventSourced partialLoad => do
      let events :=
        if partialLoad
        then s.eventStore.loadAfterVersion i.aggregateName i.aggregateId snapshot.version
        else (s.eventStore.load i.aggregateName i.aggregateId).drop snapshot.version
      let currentState ← s.aggregate.replayFrom snapshot.state events
      .ok
        { currentState
          version := snapshot.version + events.length
          isEventSourced := true
          lastSnapshotVersion := snapshot.version }
  | .stateStored =>
      match StateStore.load s.stateStore i.aggregateName i.aggregateId with
      | none => .error (.error "Cannot read properties of null (reading 'slice')")
      | some _ => .error (.error "allEvents.slice is not a function")

def loadFully : Except Err (Loaded J) :=
  match i.persistence with
  | .eventSourced _ => do
      let events := s.eventStore.load i.aggregateName i.aggregateId
      let currentState ← s.aggregate.replay events
      .ok
        { currentState
          version := events.length
          isEventSourced := true
          lastSnapshotVersion := 0 }
  | .stateStored =>
      let stateResult := StateStore.load s.stateStore i.aggregateName i.aggregateId
      .ok
        { currentState :=
            nullishCoalesce (stateResult.map (·.state)) s.aggregate.initialState
          version := (stateResult.map (·.version)).getD 0
          isEventSourced := false
          lastSnapshotVersion := 0 }

def load : Except Err (Loaded J) :=
  match i.snapshots.bind fun _ => s.snapshotStore.load i.aggregateName i.aggregateId with
  | some snapshot => loadAfterSnapshot i s snapshot
  | none => loadFully i s

/-- Step 7: the snapshot store after the commit. -/
def saveSnapshot (loaded : Loaded J) (newEvents : List (Event J)) (newState : J) :
    Except Err (SnapshotStore J) :=
  match loaded.isEventSourced, i.snapshots with
  | true, some strategy => do
      let newVersion := loaded.version + newEvents.length
      let due ← strategy newVersion loaded.lastSnapshotVersion
        (newVersion - loaded.lastSnapshotVersion)
      .ok
        (if due
        then s.snapshotStore.save i.aggregateName i.aggregateId
          { state := newState, version := newVersion }
        else s.snapshotStore)
  | _, _ => .ok s.snapshotStore

def save (loaded : Loaded J) (newState : J) (events : List (Event J)) :
    Except Err (State J Infra) :=
  if loaded.isEventSourced then do
    let eventStore ← s.eventStore.save i.aggregateName i.aggregateId events loaded.version
    .ok { s with eventStore }
  else do
    let stateStore ← s.stateStore.save i.aggregateName i.aggregateId newState loaded.version
    .ok { s with stateStore }

/-- A command that succeeds; its events are published after the commit. -/
def execute (c : Delivery.Choice J Infra) (command : Command J) : Except Err (State J Infra) :=
  if c.processed command then .ok s
  else do
    let loaded ← load i s
    match s.aggregate.decide command.name with
    | none => .error (.error
        s!"No command handler found for command: {command.name} on aggregate: {i.aggregateName}")
    | some handler => do
        let newEvents := (← handler command loaded.currentState c.infra).toArray
        let newState ← s.aggregate.applyEvents loaded.currentState newEvents
        let enrichedEvents := Delivery.enrichFrom (c.metadata command) i.aggregateName i.aggregateId
          loaded.version s.aggregate.eventVersion 0 newEvents
        let snapshotStore ← saveSnapshot i s loaded newEvents newState
        let saved ← save i s loaded newState enrichedEvents
        match c.rejects command with
        | some error => .error error
        | none =>
            .ok
              { saved with
                snapshotStore
                written := s.written ++ enrichedEvents.map fun event =>
                  (s.aggregate.upcasters, event)
                batches := s.batches ++ [enrichedEvents.length] }

end Lifecycle

/-! ## Steps -/

inductive Action (J Infra : Type) where
  | command (c : Delivery.Choice J Infra) (command : Command J)
  | deploy (aggregate : Aggregate J Infra)

def step [JsValue J] (i : Instance) (s : State J Infra) :
    Action J Infra → Option (State J Infra)
  | .command c command =>
      if command.targetAggregateId = i.aggregateId then (execute i s c command).toOption
      else none
  | .deploy aggregate => some { s with aggregate }

end Noddde.Lifetime
