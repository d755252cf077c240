import Noddde.Data.InsertionMap
/-!
# The two entry points for commands

`Domain.init` fills the command bus from the decide maps and the standalone handlers.  A
command then comes in through `Domain.dispatchCommand` or through `commandBus.dispatch`.
-/

namespace Noddde.CommandRouting

variable {H : Type}

/-- A decide map.  `Object.keys` lists its own enumerable keys; the operator `in` answers to
these and to what the object inherits or hides. -/
structure DecideMap where
  keys : List String
  nodup : keys.Nodup
  inherits : String → Bool

/-- `commandName in decide` -/
def DecideMap.answers (decide : DecideMap) (commandName : String) : Bool :=
  decide.keys.contains commandName || decide.inherits commandName

/-- The maps of a definition, in the order of `Object.entries`.  A standalone handler may be
`undefined`. -/
structure Definition (H : Type) where
  aggregates : InsertionMap String DecideMap
  standaloneCommandHandlers : InsertionMap String (Option H) := ∅

/-- What a command is handed to: the executor, with the name of an aggregate, or a
standalone handler. -/
inductive Handler (H : Type) where
  | aggregate (aggregateName : String)
  | standalone (handler : H)
  deriving DecidableEq, Repr

/-! ## InMemoryCommandBus -/

structure InMemoryCommandBus (H : Type) where
  handlers : InsertionMap String (Handler H) := ∅

namespace InMemoryCommandBus

variable (bus : InMemoryCommandBus H)

def register (commandName : String) (handler : Handler H) :
    Except String (InMemoryCommandBus H) :=
  if (bus.handlers.get commandName).isSome then
    .error s!"Handler already registered for command: {commandName}"
  else .ok { handlers := bus.handlers.set commandName handler }

def dispatch (commandName : String) : Except String (Handler H) :=
  match bus.handlers.get commandName with
  | none => .error s!"No handler registered for command: {commandName}"
  | some handler => .ok handler

end InMemoryCommandBus

/-! ## Domain -/

/-- Steps 6 and 7 of `init`: the calls of `register`, in order. -/
def registrations (definition : Definition H) : List (String × Handler H) :=
  (definition.aggregates.entries.flatMap fun (aggregateName, decide) =>
    decide.keys.map fun commandName => (commandName, .aggregate aggregateName)) ++
  definition.standaloneCommandHandlers.entries.filterMap fun (commandName, handler) =>
    handler.map fun handler => (commandName, .standalone handler)

structure Domain (H : Type) where
  definition : Definition H
  commandBus : InMemoryCommandBus H
  shuttingDown : Bool := false

def init (definition : Definition H) : Except String (Domain H) := do
  let commandBus ← (registrations definition).foldlM
    (fun (bus : InMemoryCommandBus H) registration =>
      bus.register registration.1 registration.2) {}
  pure { definition, commandBus }

def Domain.dispatchCommand (domain : Domain H) (commandName : String) :
    Except String (Handler H) :=
  if domain.shuttingDown then .error "Domain is shutting down and no longer accepts commands or queries"
  else
    match domain.definition.aggregates.entries.find? fun entry =>
      entry.2.answers commandName with
    | some (aggregateName, _) => .ok (.aggregate aggregateName)
    | none => domain.commandBus.dispatch commandName

end Noddde.CommandRouting
