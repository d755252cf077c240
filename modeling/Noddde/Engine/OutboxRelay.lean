import Noddde.Engine.CommandLifecycle
/-!
# OutboxRelay
-/

namespace Noddde

variable {J Infra : Type}

/-- Dispatch one entry and mark it; an error is logged. -/
def processEntry (entry : OutboxEntry J) : Eff J Infra Bool :=
  Async.tryCatch
    (do
      busDispatch none entry.event
      Async.call fun c =>
        match c.rejects with
        | some error => .raise error
        | none => .modify fun w =>
            { w with outboxStore := w.outboxStore.markPublished c.now [entry.id] }
      pure true)
    fun _ => pure false

def processEntries (dispatched : Nat) : List (OutboxEntry J) → Eff J Infra Nat
  | [] => pure dispatched
  | entry :: rest => do
      let done ← processEntry entry
      processEntries (if done then dispatched + 1 else dispatched) rest

/-- The test and set of `processing`. -/
def enterRelay : Sync J Bool := fun w =>
  if w.processing then (.ok false, w) else (.ok true, { w with processing := true })

def loadBatch (batchSize : Nat) (c : Choice Infra) : Sync J (List (OutboxEntry J)) :=
  match c.rejects with
  | some error => .raise error
  | none => do
      let entries ← .read fun w => w.outboxStore.loadUnpublished batchSize
      note (.batchLoaded entries)
      pure entries

def processOnce (batchSize : Nat) : Eff J Infra Nat := do
  let entered ← Async.call fun _ => enterRelay
  if entered then
    Async.tryFinally
      (Async.tryCatch
        (do
          let entries ← Async.call (loadBatch batchSize)
          processEntries 0 entries)
        fun _ => pure 0)
      (Async.call fun _ => .modify fun w => { w with processing := false })
  else pure 0

end Noddde
