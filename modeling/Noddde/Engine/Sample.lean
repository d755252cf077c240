import Noddde.Engine.System
/-!
# A small domain

A counter that adds up the payloads of its events, for runs on concrete inputs.
-/

namespace Noddde.Sample

/-- Payloads and states; `none` is `null`. -/
abbrev Value := Option Nat

instance : JsValue Value := ⟨Option.isNone⟩

def event (name : String) (payload : Value) : Event Value := ⟨name, payload, none⟩

/-- `Add` emits one event that carries its payload. -/
def counter : Aggregate Value Unit where
  initialState := some 0
  decide name :=
    if name = "Add"
    then some fun command _ _ => .ok (.single (event "Added" (command.payload.getD none)))
    else none
  evolve name :=
    if name = "Added"
    then some fun payload state => .ok (some (payload.getD 0 + state.getD 0))
    else none
  upcasters := none

def wiring : Wiring Value Unit where
  aggregates _ := counter
  sagas _ := ⟨[], none, fun _ => none, none⟩
  commandBus _ := some (.aggregate "Counter")
  persistence _ := some (.eventSourced true)
  concurrency := .base (.optimistic 0)
  snapshots _ := none
  idempotency := none
  strongProjections := []
  outbox := false
  metadataProvider := none
  traceContext _ := (none, none)
  uuidv7 n := String.ofList (List.replicate n 'x')
  releaseMayReject := false
  transactionMayReject := false

def add (id : String) (payload : Value) : Command Value :=
  ⟨"Add", some payload, none, .string id⟩

def outboxed : Wiring Value Unit := { wiring with outbox := true }

theorem outboxed_injective : Function.Injective outboxed.uuidv7 := by
  intro m n h
  have hlist := congrArg String.toList h
  simp only [outboxed, wiring, String.toList_ofList] at hlist
  simpa using congrArg List.length hlist

/-- The counter with a saga that answers every `Added` with an `Add` to the counter `b`. -/
def relaying : Wiring Value Unit :=
  { wiring with
    sagas := fun _ =>
      { startedBy := ["Added"]
        initialState := some 0
        on := fun name =>
          if name = "Added"
          then some
            { id := fun _ => .ok (.string "s")
              handle := fun _ state _ => .ok ⟨state, some (.single (add "b" (some 1)))⟩ }
          else none
        atomicity := none } }

/-- What the counter of `id` emits first of all. -/
def added (id eventId causationId : String) (payload : Value) : Event Value where
  name := "Added"
  payload := payload
  metadata := some
    { eventId := eventId
      timestamp := 0
      correlationId := ""
      causationId := causationId
      userId := none
      version := none
      aggregateName := some "Counter"
      aggregateId := some (.string id)
      sequenceNumber := some 1
      traceparent := none
      tracestate := none }

/-- A workload that is given by lists. -/
def work (commands : List (CommandCall Value)) (scopes : List (ScopeCall Value) := [])
    (sagas : List (SagaCall Value) := []) (relays : List Nat := []) : Workload Value where
  commands n := commands[n]?
  scopes n := scopes[n]?
  sagas n := sagas[n]?
  relays n := relays[n]?

/-- A dispatch outside any unit of work. -/
def call (command : Command Value) : CommandCall Value := ⟨{}, "Counter", command⟩

/-- Nothing outside the process is out of the ordinary. -/
def tick : Choice Unit := ⟨0, (), none, false⟩

/-- The thread `i` runs `n` segments. -/
def turns (i : Tid) (n : Nat) : List (Tid × Choice Unit) := List.replicate n (i, tick)

end Noddde.Sample
