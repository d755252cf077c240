import Noddde.Engine.Domain
/-!
# SagaExecutor
-/

namespace Noddde

variable {J Infra : Type} [JsValue J] (wiring : Wiring J Infra)

/-- Step 4: the state and the version to go on from; `none` if the event is
ignored. -/
def bootstrap (saga : Saga J Infra) (event : Event J) (loaded : Option (StoredState J)) :
    Option (J × Nat) :=
  match loaded with
  | some loaded => some (loaded.state, loaded.version)
  | none => if event.name ∈ saga.startedBy then some (saga.initialState, 0) else none

def sagaContext (event : Event J) : Sync J MetadataContext := do
  let correlationId ← orUuid wiring (event.metadata.map (·.correlationId))
  pure
    { correlationId := some (some correlationId)
      causationId := some (some (event.eventId?.getD event.name))
      userId := some (event.metadata.bind (·.userId)) }

/-- `reaction.commands`, as an array. -/
def Reaction.commandList (reaction : Reaction J) : List (Command J) :=
  (reaction.commands.map OneOrMany.toArray).getD []

/-- `commandBus.dispatch(command)` for the `index`-th reaction command. -/
def dispatchReaction (n : Nat) (ambient : Ambient) (command : Command J) (index : Nat) :
    Eff J Infra Unit :=
  match wiring.commandBus command.name with
  | none => throw (.error s!"No handler registered for command: {command.name}")
  | some (.aggregate aggregateName) =>
      dispatch wiring ⟨.reaction n index, aggregateName, command⟩ ambient
  | some .standalone =>
      -- user code, outside the engine
      Async.call fun c =>
        match c.rejects with
        | none => pure ()
        | some error => .raise error

def dispatchCommands (n : Nat) (ambient : Ambient) (commands : List (Command J)) :
    Eff J Infra Unit :=
  Async.forEach (fun command => dispatchReaction wiring n ambient command.1 command.2)
    commands.zipIdx

/-- Steps 7 and on: settle the unit of work of the execution in the atomicity mode
of the saga. -/
def settleReaction (ambient : Ambient) (n : Nat) (mode : Atomicity) (save : Operation J)
    (sagaCtx : MetadataContext) (commands : List (Command J)) : Eff J Infra Unit :=
  let uow := UowRef.saga n
  let enlistSave : Eff J Infra Unit := Async.call fun _ => enlist uow none save
  match mode with
  | .bestEffort =>
      settleAndPublish wiring ambient uow enlistSave
        (dispatchCommands wiring n { ambient with metadata := some sagaCtx } commands)
  | .atomic =>
      settleAndPublish wiring ambient uow
        (do
          enlistSave
          dispatchCommands wiring n (.withinSaga n sagaCtx) commands)
        (pure ())

def executeSaga (ambient : Ambient) (n : Nat) (sagaName : String) (event : Event J) :
    Eff J Infra Unit :=
  let saga := wiring.sagas sagaName
  match saga.on event.name with
  | none => pure ()
  | some onEntry => do
      let sagaId ← Async.ofExcept (onEntry.id event)
      let loaded ← Async.call fun _ => .read fun w =>
        StateStore.load w.sagaStore sagaName sagaId
      match bootstrap saga event loaded with
      | none => pure ()
      | some (currentState, expectedVersion) => do
          let reaction ← Async.call fun c =>
            .ofExcept (onEntry.handle event currentState c.infra)
          let sagaCtx ← Async.call fun _ => sagaContext wiring event
          Async.call fun _ => createUow (.saga n)
          settleReaction wiring ambient n (saga.atomicity.getD .atomic)
            (.saveSaga sagaName sagaId reaction.state expectedVersion) sagaCtx
            reaction.commandList

end Noddde
