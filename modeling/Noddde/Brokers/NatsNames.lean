import Noddde.Data.Json
import Noddde.Data.WordPattern
/-!
# The names of the NATS bus

The subjects of events, dead letters and the stream are built from one prefix, the names of
durable consumers from the consumer group.  The server takes a subject token by token.
-/

namespace Noddde.Brokers.NatsEventBus

structure Config where
  consumerGroup : JsString
  streamName : Option JsString := none
  subjectPrefix : Option JsString := none
  prefetchCount : Option Nat := none
  /-- `resilience?.maxRetries` -/
  maxRetries : Option Nat := none

def dot : UInt16 := 0x2E
def asterisk : UInt16 := 0x2A
def greaterThan : UInt16 := 0x3E
def underscore : UInt16 := 0x5F
def hyphen : UInt16 := 0x2D

/-- `[a-zA-Z0-9_-]` -/
def isNameUnit (c : UInt16) : Bool :=
  0x61 ≤ c && c ≤ 0x7A || 0x41 ≤ c && c ≤ 0x5A || 0x30 ≤ c && c ≤ 0x39 || c == underscore ||
    c == hyphen

/-- `eventName.replace(/[^a-zA-Z0-9_-]/g, "_")` -/
def sanitize (eventName : JsString) : JsString :=
  eventName.map fun c => if isNameUnit c then c else underscore

structure ConsumerOpts where
  durable : JsString
  deliverGroup : JsString
  filterSubject : JsString
  maxAckPending : Nat
  maxDeliver : Option Nat

/-- `js.subscribe(subject, opts)` -/
structure Subscribe where
  subject : JsString
  opts : ConsumerOpts

namespace Config

variable (config : Config)

def subjectFor (eventName : JsString) : JsString := config.subjectPrefix.getD [] ++ eventName

def dlqSubjectFor (eventName : JsString) : JsString :=
  config.subjectPrefix.getD [] ++ (Json.ascii "dlq." ++ eventName)

/-- The subject that `dispatch` publishes an event of the name to. -/
def dispatchSubject (eventName : JsString) : JsString := config.subjectFor eventName

def durableName (eventName : JsString) : JsString :=
  config.consumerGroup ++ underscore :: sanitize eventName

def createSubscriptionForEvent (eventName : JsString) : Subscribe :=
  let subject := config.subjectFor eventName
  let durableName := config.durableName eventName
  { subject
    opts :=
      { durable := durableName
        deliverGroup := durableName
        filterSubject := subject
        maxAckPending := config.prefetchCount.getD 256
        maxDeliver := config.maxRetries } }

/-- The subjects of the stream, or the message of the error. -/
def buildSubjectsForStream : Except JsString (List JsString) :=
  let subjectPrefix := config.subjectPrefix.getD []
  if subjectPrefix = [] then
    .error (Json.ascii
      "NatsEventBus: \"subjectPrefix\" is required when \"streamName\" is configured. An unset subjectPrefix would create a stream claiming \">\" — every subject on the server. Provide a namespaced prefix (e.g. subjectPrefix: \"myapp.\").")
  else
    let normalized :=
      if subjectPrefix.getLast? = some dot then subjectPrefix else subjectPrefix ++ [dot]
    let subject := normalized ++ [greaterThan]
    if subject = [greaterThan] ∨ asterisk ∈ normalized ∨ greaterThan ∈ normalized then
      .error (Json.ascii "NatsEventBus: computed stream subject \"" ++ subject ++
        Json.ascii "\" is invalid or overly broad.")
    else .ok [subject]

end Config

/-! ## The server -/

def tokens (subject : JsString) : List JsString := subject.splitOn dot

/-- `*` stands for one token, and `>` at the end for one or more. -/
def pattern : List JsString → List (PatternWord JsString)
  | [] => []
  | token :: rest =>
      if token = [greaterThan] ∧ rest = [] then [.one, .any]
      else (if token = [asterisk] then .one else .word token) :: pattern rest

/-- A message on `subject` is one of a stream or a consumer with the filter. -/
def Covers (filter subject : JsString) : Prop :=
  PatternWord.Matches (pattern (tokens filter)) (tokens subject)

instance (filter subject : JsString) : Decidable (Covers filter subject) :=
  PatternWord.decidableMatches _ _

/-- A token is not empty, and without white space, wildcards and separators. -/
def LegalToken (token : JsString) : Prop :=
  token ≠ [] ∧ ∀ c ∈ token, c ≠ dot ∧ c ≠ asterisk ∧ c ≠ greaterThan ∧ 0x20 < c

def LegalName (eventName : JsString) : Prop := ∀ token ∈ tokens eventName, LegalToken token

/-! ## What the names are for -/

/-- The stream has all that is published for an event, its consumer gets what is dispatched,
and neither another event nor a dead letter has the subject of an event. -/
structure Separates (config : Config) (stream : List JsString) (eventName other : JsString) :
    Prop where
  covered : ∀ subject ∈ [config.dispatchSubject eventName,
      (config.createSubscriptionForEvent eventName).subject,
      (config.createSubscriptionForEvent eventName).opts.filterSubject,
      config.dlqSubjectFor eventName], ∃ filter ∈ stream, Covers filter subject
  subscribed : (config.createSubscriptionForEvent eventName).subject =
    config.dispatchSubject eventName
  filtered : (config.createSubscriptionForEvent eventName).opts.filterSubject =
    config.dispatchSubject eventName
  distinct : eventName ≠ other → config.dispatchSubject eventName ≠ config.dispatchSubject other ∧
    config.dlqSubjectFor eventName ≠ config.dlqSubjectFor other
  deadLetter : config.dlqSubjectFor eventName ≠ config.dispatchSubject other

/-- A code unit that is an underscore in a sanitized name. -/
def IsBlank (c : UInt16) : Prop := c = underscore ∨ isNameUnit c = false

/-- Two code units that are one in sanitized names. -/
def Alike (c d : UInt16) : Prop := c = d ∨ IsBlank c ∧ IsBlank d

/-- The group is the other one with an underscore and the beginning of the other event name
after it, and the rest of that name is the event name. -/
def Extends (group eventName otherGroup otherName : JsString) : Prop :=
  ∃ front blank rest, group = otherGroup ++ underscore :: sanitize front ∧
    otherName = front ++ blank :: rest ∧ IsBlank blank ∧ List.Forall₂ Alike eventName rest

/-- Two consumers that one durable name is made for. -/
def Collide (group eventName otherGroup otherName : JsString) : Prop :=
  group = otherGroup ∧ eventName ≠ otherName ∧ List.Forall₂ Alike eventName otherName ∨
    Extends group eventName otherGroup otherName ∨ Extends otherGroup otherName group eventName

end Noddde.Brokers.NatsEventBus
