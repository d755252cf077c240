import Mathlib.Data.List.Basic
/-!
# Identifiers, commands, events and errors

Payloads, states and views are untyped in the engine (`any`); here they are the
values of one type parameter `J`.
-/

namespace Noddde

/-- `string | number | bigint`.  A number is kept as the text JavaScript renders
it to: the engine only ever uses `String(id)`. -/
inductive ID where
  | string (value : String)
  | number (rendered : String)
  | bigint (value : Int)
  deriving DecidableEq, Repr

/-- `String(id)` -/
def ID.render : ID → String
  | .string value => value
  | .number rendered => rendered
  | .bigint value => toString value

/-- The key under which the in-memory stores keep an instance:
`${name}:${id}`. -/
def compositeKey (name : String) (id : ID) : String :=
  s!"{name}:{id.render}"

/-- Of one name, the ids are told apart by how they are rendered. -/
theorem compositeKey_inj {name : String} {id id' : ID} :
    compositeKey name id = compositeKey name id' ↔ id.render = id'.render := by
  constructor
  · intro h
    have hlist := congrArg String.toList h
    simp only [compositeKey, String.toList_append] at hlist
    exact String.toList_injective (List.append_cancel_left hlist)
  · intro h
    rw [compositeKey, compositeKey, h]

/-- JavaScript values that may be `null` or `undefined`. -/
class JsValue (J : Type) where
  isNullish : J → Bool

/-- `x ?? fallback`, for an `x` that may also be absent. -/
def nullishCoalesce {J : Type} [JsValue J] (x : Option J) (fallback : J) : J :=
  match x with
  | none => fallback
  | some v => if JsValue.isNullish v then fallback else v

/-- The errors the engine throws or passes on from user code. -/
inductive Err where
  | concurrency (aggregateName : String) (aggregateId : ID)
      (expectedVersion actualVersion : Nat)
  | idempotencyConflict (commandId : ID)
  | lockTimeout (aggregateName : String) (aggregateId : ID) (timeoutMs : Nat)
  | error (message : String)
  deriving DecidableEq, Repr

/-- `error instanceof ConcurrencyError` -/
def Err.isConcurrency : Err → Bool
  | .concurrency .. => true
  | _ => false

/-- The version of a payload's schema: a number, or `NaN` where it is counted from a length
that is not one. -/
inductive SchemaVersion where
  | number (n : Nat)
  | nan
  deriving DecidableEq, Repr

namespace SchemaVersion

/-- `a <= b`, which does not hold of `NaN`. -/
protected def le : SchemaVersion → SchemaVersion → Prop
  | .number m, .number n => m ≤ n
  | _, _ => False

instance : LE SchemaVersion := ⟨SchemaVersion.le⟩

instance : DecidableRel ((· ≤ ·) : SchemaVersion → SchemaVersion → Prop)
  | .number m, .number n => inferInstanceAs (Decidable (m ≤ n))
  | .number _, .nan | .nan, _ => inferInstanceAs (Decidable False)

@[simp] theorem number_le_number {m n : Nat} : number m ≤ number n ↔ m ≤ n := Iff.rfl

@[simp] theorem not_nan_le (version : SchemaVersion) : ¬ nan ≤ version := nofun

@[simp] theorem not_le_nan (version : SchemaVersion) : ¬ version ≤ nan := by
  cases version <;> exact nofun

end SchemaVersion

/-- Metadata that the engine attaches to an event.  A timestamp is kept as the
epoch milliseconds that its ISO 8601 text denotes. -/
structure EventMetadata where
  eventId : String
  timestamp : Nat
  correlationId : String
  causationId : String
  userId : Option ID
  version : Option SchemaVersion
  aggregateName : Option String
  aggregateId : Option ID
  sequenceNumber : Option Nat
  traceparent : Option String
  tracestate : Option String
  deriving DecidableEq, Repr

structure Event (J : Type) where
  name : String
  payload : J
  metadata : Option EventMetadata
  deriving DecidableEq, Repr

/-- What a decide handler says of an event. -/
def Event.fact {J : Type} (e : Event J) : String × J := (e.name, e.payload)

/-- `event.metadata?.eventId` -/
def Event.eventId? {J : Type} (e : Event J) : Option String :=
  e.metadata.map (·.eventId)

structure Command (J : Type) where
  name : String
  payload : Option J
  commandId : Option ID
  targetAggregateId : ID
  deriving DecidableEq, Repr

end Noddde
