import Noddde.Async.Machine
import Noddde.Data.StableSort
import Noddde.Engine.Store
/-!
# OutboxRelay, with its timer and its flags

Any number of calls of `processOnce` and of `drain` are under way at once.  A step is one
synchronous segment: a call, or what runs when an awaited promise settles.  The calls of
the in-memory store take effect when they are made.
-/

namespace Noddde.OutboxRelay

variable {J : Type}

/-- Where a call of `processOnce` stands. -/
inductive Batch (J : Type) where
  | loading (entries : List (OutboxEntry J))
  | dispatching (dispatched : Nat) (entry : OutboxEntry J) (rest : List (OutboxEntry J))
  | marking (dispatched : Nat) (rest : List (OutboxEntry J))
  | returned (dispatched : Nat)
  deriving DecidableEq, Repr

/-- What is left when a call of `drain` resolves: calls of `processOnce` in progress,
unpublished entries, and earlier calls of `drain` that have not resolved. -/
structure Remains where
  running : Nat := 0
  unpublished : Nat := 0
  pending : Nat := 0
  deriving DecidableEq, Repr

inductive Drain where
  /-- It awaits this call of `processOnce`. -/
  | waits (call : Nat)
  /-- It has resolved; `remains` is a history variable. -/
  | resolved (remains : Remains)
  deriving DecidableEq, Repr

structure Relay (J : Type) where
  outboxStore : OutboxStore J
  timer : Bool := false
  processing : Bool := false
  drained : Bool := false
  calls : List (Batch J) := []
  drains : List Drain := []

def Batch.isRunning : Batch J → Bool
  | .returned _ => false
  | _ => true

def Drain.isPending : Drain → Bool
  | .waits _ => true
  | .resolved _ => false

/-- The entries without `publishedAt`. -/
def unpublished (store : OutboxStore J) : List (OutboxEntry J) :=
  store.values.filter fun entry => entry.publishedAt.isNone

def Older (a b : OutboxEntry J) : Prop := a.createdAt ≤ b.createdAt

instance : DecidableRel (Older (J := J)) := fun a b => Nat.decLe a.createdAt b.createdAt

instance : Std.Total (Older (J := J)) := ⟨fun a b => Nat.le_total a.createdAt b.createdAt⟩

instance : IsTrans (OutboxEntry J) Older := ⟨fun _ _ _ => Nat.le_trans⟩

def oldestFirst (store : OutboxStore J) : List (OutboxEntry J) :=
  (unpublished store).insertionSort Older

/-- `loadUnpublished`, with a sort that the kernel computes. -/
def loadUnpublished (store : OutboxStore J) (batchSize : Nat) : List (OutboxEntry J) :=
  (oldestFirst store).take batchSize

theorem loadUnpublished_eq (store : OutboxStore J) (batchSize : Nat) :
    store.loadUnpublished batchSize = loadUnpublished store batchSize := by
  rw [loadUnpublished, oldestFirst, ← StableSort.mergeSort_eq_insertionSort]
  rfl

namespace Relay

variable (relay : Relay J) (batchSize : Option Nat)

def start : Relay J := { relay with timer := true }

def stop : Relay J := { relay with timer := false }

def processOnce : Relay J :=
  if relay.processing then { relay with calls := relay.calls ++ [.returned 0] }
  else { relay with
    processing := true
    calls := relay.calls ++
      [.loading (loadUnpublished relay.outboxStore (batchSize.getD 100))] }

/-- The next turn of the loop over the entries, or the end of the call. -/
def proceed (call dispatched : Nat) : List (OutboxEntry J) → Relay J
  | [] => { relay with
      processing := false
      calls := relay.calls.set call (.returned dispatched) }
  | entry :: rest =>
      { relay with calls := relay.calls.set call (.dispatching dispatched entry rest) }

/-- The promise that a call of `processOnce` awaits settles. -/
def settle (call : Nat) (ok : Bool) (now : Nat) : Option (Relay J) :=
  match relay.calls[call]? with
  | some (.loading entries) => some (relay.proceed call 0 (if ok then entries else []))
  | some (.dispatching dispatched entry rest) =>
      some (if ok then
          { relay with
            outboxStore := relay.outboxStore.markPublished now [entry.id]
            calls := relay.calls.set call (.marking dispatched rest) }
        else relay.proceed call dispatched rest)
  | some (.marking dispatched rest) =>
      some (relay.proceed call (if ok then dispatched + 1 else dispatched) rest)
  | some (.returned _) | none => none

def remains (earlier : List Drain) : Remains where
  running := relay.calls.countP Batch.isRunning
  unpublished := (unpublished relay.outboxStore).length
  pending := earlier.countP Drain.isPending

def drain : Relay J :=
  if relay.drained then
    { relay with drains := relay.drains ++ [.resolved (relay.remains relay.drains)] }
  else
    let relay := { relay with drained := true }.stop
    { relay.processOnce batchSize with
      drains := relay.drains ++ [.waits relay.calls.length] }

/-- A call of `drain` goes on with what `processOnce` has returned. -/
def goOn (call : Nat) : Option (Relay J) :=
  match relay.drains[call]? with
  | some (.waits batch) =>
      match relay.calls[batch]? with
      | some (.returned processed) =>
          some (if 0 < processed then
              { relay.processOnce batchSize with
                drains := relay.drains.set call (.waits relay.calls.length) }
            else
              { relay with
                drains := relay.drains.set call
                  (.resolved (relay.remains (relay.drains.take call))) })
      | _ => none
  | _ => none

inductive Action (J : Type) where
  | start
  | stop
  | tick
  | processOnce
  | drain
  | settle (call : Nat) (ok : Bool) (now : Nat)
  | goOn (drain : Nat)
  | save (entries : List (OutboxEntry J))
  /-- The owner of a unit of work has published its events. -/
  | markPublishedByEventIds (now : Nat) (eventIds : List String)

def step : Action J → Option (Relay J)
  | .start => some relay.start
  | .stop => some relay.stop
  | .tick => if relay.timer then some (relay.processOnce batchSize) else none
  | .processOnce => some (relay.processOnce batchSize)
  | .drain => some (relay.drain batchSize)
  | .settle call ok now => relay.settle call ok now
  | .goOn call => relay.goOn batchSize call
  | .save entries => some { relay with outboxStore := relay.outboxStore.save entries }
  | .markPublishedByEventIds now eventIds =>
      some { relay with
        outboxStore := relay.outboxStore.markPublishedByEventIds now eventIds }

/-! ## Draining -/

/-- Whenever a call of `drain` has resolved, no call of `processOnce` was in progress, no
entry was unpublished, and the calls of `drain` before it had resolved. -/
def Drains : Prop := ∀ remains, .resolved remains ∈ relay.drains → remains = {}

def Draining : Prop := ∃ drain ∈ relay.drains, drain.isPending = true

/-- While a call of `drain` has not resolved, nothing fails and nothing is saved. -/
def Calm : Action J → Prop
  | .settle _ ok _ => relay.Draining → ok = true
  | .save _ => ¬ relay.Draining
  | _ => True

/-- `drain` is called, and goes on after a batch, while no call of `processOnce` is in
progress; it is called again only when it has resolved and there is nothing left to do. -/
def Undisturbed : Action J → Prop
  | .drain => relay.processing = false ∧
      (relay.drained = true → ¬ relay.Draining ∧ unpublished relay.outboxStore = [])
  | .goOn _ => relay.processing = false
  | _ => True

instance : Decidable relay.Draining :=
  inferInstanceAs (Decidable (∃ drain ∈ relay.drains, _))

instance (action : Action J) : Decidable (relay.Calm action) :=
  match action with
  | .settle _ ok _ => inferInstanceAs (Decidable (relay.Draining → ok = true))
  | .save _ => inferInstanceAs (Decidable (¬ relay.Draining))
  | .start | .stop | .tick | .processOnce | .drain | .goOn _ | .markPublishedByEventIds _ _ =>
      inferInstanceAs (Decidable True)

instance [DecidableEq J] (action : Action J) : Decidable (relay.Undisturbed action) :=
  match action with
  | .drain => inferInstanceAs (Decidable (relay.processing = false ∧
      (relay.drained = true → ¬ relay.Draining ∧ unpublished relay.outboxStore = [])))
  | .goOn _ => inferInstanceAs (Decidable (relay.processing = false))
  | .start | .stop | .tick | .processOnce | .settle _ _ _ | .save _
  | .markPublishedByEventIds _ _ => inferInstanceAs (Decidable True)

/-! ## Poison entries -/

/-- No call is under way, and `drain` was not called yet. -/
structure Idle : Prop where
  processing : relay.processing = false
  calls : ∀ batch ∈ relay.calls, batch.isRunning = false
  drained : relay.drained = false
  drains : relay.drains = []

/-- The bus rejects the poison entries, and no other promise rejects. -/
def Answers (poison : String → Bool) (call : Nat) (ok : Bool) : Prop :=
  match relay.calls[call]? with
  | some (.dispatching _ entry _) => ok = !poison entry.id
  | _ => ok = true

/-- Nothing but the call of `drain` is under way. -/
def DrainsAlone (poison : String → Bool) : Action J → Prop
  | .settle call ok _ => relay.Answers poison call ok
  | .goOn _ => True
  | _ => False

/-- The outbox is polled, and nothing else. -/
def Polls (poison : String → Bool) : Action J → Prop
  | .settle call ok _ => relay.Answers poison call ok
  | .start | .stop | .tick | .processOnce => True
  | _ => False

/-- The call of `drain` has resolved and has published everything but the poison entries of
`store`. -/
def LeavesPoison (poison : String → Bool) (store : OutboxStore J) : Prop :=
  (∃ remains, relay.drains = [.resolved remains]) ∧
    unpublished relay.outboxStore = (unpublished store).filter fun entry => poison entry.id

/-- Polls of the relay that start a batch again and again. -/
structure PollsForever (poison : String → Bool) (relays : Nat → Relay J) : Prop where
  step : ∀ n, ∃ action, (relays n).Polls poison action ∧
    (relays n).step batchSize action = some (relays (n + 1))
  endless : ∀ n, ∃ m, n ≤ m ∧ (relays m).processing = false ∧ (relays (m + 1)).processing = true

/-- `drain` publishes everything but the poison entries, and endless polling has every other
entry in a batch. -/
structure Feeds (poison : String → Bool) : Prop where
  drain : Machine.Inevitable (step · batchSize) (DrainsAlone · poison)
    (LeavesPoison · poison relay.outboxStore) (relay.drain batchSize)
  polls : ∀ relays, relays 0 = relay → PollsForever batchSize poison relays →
    ∀ entry ∈ unpublished relay.outboxStore, poison entry.id = false →
      ∃ n, ∃ entries, .loading entries ∈ (relays n).calls ∧ entry ∈ entries

/-- Every unpublished entry that is no poison has fewer poison entries before it than fit
into a batch. -/
def Admits (poison : String → Bool) : Prop :=
  ∀ before entry after, oldestFirst relay.outboxStore = before ++ entry :: after →
    poison entry.id = false →
      before.countP (fun entry => poison entry.id) < batchSize.getD 100

end Relay

end Noddde.OutboxRelay
