import Noddde.Engine.UnitOfWork
/-!
# MetadataEnricher

Three sources are merged: the context of `withMetadataContext` or of a saga, the
metadata provider, and generated defaults.
-/

namespace Noddde

variable {J Infra : Type} (wiring : Wiring J Infra)

/-- `uuidv7()` -/
def uuidv7 : Sync J String := fun w =>
  (.ok (wiring.uuidv7 w.uuids), { w with uuids := w.uuids + 1 })

/-- `value ?? uuidv7()` -/
def orUuid (value : Option String) : Sync J String :=
  match value with
  | some value => pure value
  | none => uuidv7 wiring

/-- `this.metadataProvider?.() ?? {}` -/
def providerContext (c : Choice Infra) : Except Err MetadataContext :=
  match wiring.metadataProvider with
  | none => .ok {}
  | some metadataProvider => metadataProvider c.infra

def enrichFrom (metadata : (eventId : String) → (index : Nat) → Event J → EventMetadata) :
    (index : Nat) → List (Event J) → Sync J (List (Event J))
  | _, [] => pure []
  | index, event :: rest => do
      let eventId ← uuidv7 wiring
      let enriched := { event with metadata := some (metadata eventId index event) }
      let others ← enrichFrom metadata (index + 1) rest
      pure (enriched :: others)

def eventMetadata (mergedCtx : MetadataContext) (correlationId : String)
    (c : Choice Infra) (aggregateName : String) (aggregateId : ID) (version : Nat)
    (causationFallback : String) (eventVersionResolver : String → Option SchemaVersion)
    (eventId : String) (index : Nat) (event : Event J) : EventMetadata where
  eventId := eventId
  timestamp := c.now
  correlationId := correlationId
  causationId := (mergedCtx.causationId.getD none).getD causationFallback
  userId := mergedCtx.userId.getD none
  version := eventVersionResolver event.name
  aggregateName := some aggregateName
  aggregateId := some aggregateId
  sequenceNumber := some (version + index + 1)
  traceparent := (wiring.traceContext c.infra).1
  tracestate := (wiring.traceContext c.infra).2

def enrich (ambient : Ambient) (c : Choice Infra) (events : List (Event J))
    (aggregateName : String) (aggregateId : ID) (version : Nat)
    (causationFallback : String) (eventVersionResolver : String → Option SchemaVersion) :
    Sync J (List (Event J)) := do
  let providerCtx ← .ofExcept (providerContext wiring c)
  let overrideCtx := ambient.metadata.getD {}
  let mergedCtx := providerCtx.merge overrideCtx
  let correlationId ← orUuid wiring (mergedCtx.correlationId.getD none)
  enrichFrom wiring
    (eventMetadata wiring mergedCtx correlationId c aggregateName aggregateId version
      causationFallback eventVersionResolver)
    0 events

end Noddde
