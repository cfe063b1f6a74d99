import Fluo.Lib.JsString

/-!
# The Redis Streams transport

The entries of the request, event and response streams, and what one turn of
`pollStream` does with a batch of them. What a command on the connection comes
to is given with each entry.
-/

namespace Fluo.Microservices

open Fluo.Js

variable {Json : Type}

/-- What a promise rejects with: an `Error`, or some other value. -/
inductive Thrown
  | error (message : JsString)
  | other
  deriving DecidableEq, Repr

def Thrown.message : Thrown → JsString
  | .error message => message
  | .other => text "Unhandled microservice error"

inductive Outcome (Json : Type)
  | fulfilled (payload : Json)
  | rejected (error : Thrown)
  deriving DecidableEq, Repr

def Outcome.rejects : Outcome Json → Bool
  | .fulfilled _ => false
  | .rejected _ => true

/-- How a `send` ends. -/
inductive Settlement (Json : Type)
  | fulfilled (payload : Option Json)
  | rejected (message : JsString)
  deriving DecidableEq, Repr

/-- A string as a condition: an empty one counts as none. -/
def truthy : Option JsString → Option JsString
  | none | some [] => none
  | some (u :: rest) => some (u :: rest)

@[simp] theorem truthy_none : truthy none = none := rfl

@[simp] theorem truthy_nil : truthy (some []) = none := rfl

theorem truthy_some {s : JsString} (nonempty : s ≠ []) : truthy (some s) = some s := by
  cases s with
  | nil => exact absurd rfl nonempty
  | cons u rest => rfl

/-! ## Entries -/

inductive Kind
  | event
  | message
  | response
  deriving DecidableEq, Repr

inductive JsonText (Json : Type)
  | value (json : Json)
  | malformed
  deriving DecidableEq, Repr

/-- The fields of an entry. A kind that is none of the three is missing, and so is an empty id or stream. A response stream
is named after its consumer. -/
structure Fields (Json : Type) where
  error : Option JsString
  kind : Option Kind
  pattern : Option JsString
  payload : Option (JsonText Json)
  replyStream : Option Nat
  requestId : Option Nat
  deriving DecidableEq, Repr

structure RedisStreamTransportMessage (Json : Type) where
  error : Option JsString
  kind : Kind
  pattern : JsString
  payload : Option Json
  replyStream : Option Nat
  requestId : Option Nat
  deriving DecidableEq, Repr

def parsePayload : Option (JsonText Json) → Option (Option Json)
  | none => some none
  | some (.value json) => some (some json)
  | some .malformed => none

def parseFields (fields : Fields Json) : Option (RedisStreamTransportMessage Json) := do
  let kind ← fields.kind
  let pattern ← truthy fields.pattern
  let payload ← parsePayload fields.payload
  some ⟨fields.error, kind, pattern, payload, fields.replyStream, fields.requestId⟩

/-! ## Handling -/

/-- What a command comes to. One that fails may have been carried out. -/
inductive Command
  | done
  | failed (applied : Bool) (error : Thrown)
  deriving DecidableEq, Repr

def Command.fails : Command → Bool
  | .done => false
  | .failed _ _ => true

def Command.applies : Command → Bool
  | .done => true
  | .failed applied _ => applied

structure Fate (Json : Type) where
  outcome : Outcome Json
  published : Command
  errorPublished : Command
  acked : Command
  deleted : Command
  deriving DecidableEq, Repr

/-- What the handling of a request has done: the frames that it has appended, whether the handler has been called, and
whether it throws. -/
structure Handling (Json : Type) where
  frames : List (Nat × Fields Json)
  handed : Bool
  throws : Bool
  deriving DecidableEq, Repr

def publishFrame (stream : Nat) (fields : Fields Json) (command : Command) : List (Nat × Fields Json) :=
  if command.applies then [(stream, fields)] else []

def successFrame (pattern : JsString) (requestId : Nat) (payload : Json) : Fields Json :=
  ⟨none, some .response, some pattern, some (.value payload), none, some requestId⟩

def errorFrame (pattern : JsString) (requestId : Nat) (message : JsString) : Fields Json :=
  ⟨some message, some .response, some pattern, none, none, some requestId⟩

/-- The `catch` of `handleInboundRequest`. -/
def replyError (stream : Nat) (pattern : JsString) (requestId : Nat) (error : Thrown) (command : Command) : Handling Json :=
  ⟨publishFrame stream (errorFrame pattern requestId error.message) command, true, command.fails⟩

/-- `self` is the consumer whose transport it is. -/
def handleInboundRequest (self : Nat) (message : RedisStreamTransportMessage Json) (fate : Fate Json) : Handling Json :=
  match message.kind, message.requestId with
  | .message, some requestId =>
    let stream := message.replyStream.getD self
    match fate.outcome with
    | .fulfilled payload =>
      let frames := publishFrame stream (successFrame message.pattern requestId payload) fate.published
      match fate.published with
      | .done => ⟨frames, true, false⟩
      | .failed _ error =>
        let caught := replyError stream message.pattern requestId error fate.errorPublished
        { caught with frames := frames ++ caught.frames }
    | .rejected error => replyError stream message.pattern requestId error fate.errorPublished
  | _, _ => ⟨[], false, false⟩

/-- How a response settles the request that it names. -/
def handleInboundResponse (message : RedisStreamTransportMessage Json) : Option (Nat × Settlement Json) :=
  match message.kind, message.requestId with
  | .response, some requestId =>
    match truthy message.error with
    | some error => some (requestId, .rejected error)
    | none => some (requestId, .fulfilled message.payload)
  | _, _ => none

/-! ## Polling -/

inductive Stream
  | messages
  | events
  | responses
  deriving DecidableEq, Repr

/-- A consumer of one of its streams; `reclaims` says whether reclaiming is configured. -/
structure Consumer where
  stream : Stream
  self : Nat
  reclaims : Bool
  deriving DecidableEq, Repr

/-- Whether `reclaimPendingEntries` asks for pending entries. -/
def Consumer.reclaimsPending (consumer : Consumer) : Bool := consumer.stream ≠ .responses && consumer.reclaims

structure Processed where
  handed : Bool
  succeeded : Bool
  acked : Bool
  throws : Bool
  deriving DecidableEq, Repr

/-- An entry is acknowledged, and is removed when its stream is not that of the events. -/
def acknowledge (stream : Stream) (fate : Fate Json) (handed succeeded : Bool) : Processed :=
  ⟨handed, succeeded, fate.acked.applies, fate.acked.fails || (stream ≠ .events && fate.deleted.fails)⟩

/-- `handleStreamEntry` and what follows it. -/
def handleEntry (consumer : Consumer) (message : RedisStreamTransportMessage Json) (fate : Fate Json) : Processed :=
  match consumer.stream with
  | .messages =>
    let handling := handleInboundRequest consumer.self message fate
    if handling.throws then ⟨handling.handed, false, false, true⟩
    else acknowledge .messages fate handling.handed handling.handed
  | .events =>
    match message.kind with
    | .event =>
      match fate.outcome with
      | .fulfilled _ => acknowledge .events fate true true
      | .rejected _ => ⟨true, false, false, false⟩
    | _ => acknowledge .events fate false false
  | .responses =>
    let handed := (handleInboundResponse message).isSome
    acknowledge .responses fate handed handed

def pollEntry (consumer : Consumer) (fields : Fields Json) (fate : Fate Json) : Processed :=
  match parseFields fields with
  | none => ⟨false, false, fate.acked.applies, fate.acked.fails⟩
  | some message => handleEntry consumer message fate

/-- The entries of a batch, with what has been done with them. An exception leaves the batch. -/
def pollBatch (consumer : Consumer) (fields : Nat → Fields Json) : List (Nat × Fate Json) → List (Nat × Option Processed)
  | [] => []
  | (id, fate) :: rest =>
    let processed := pollEntry consumer (fields id) fate
    (id, some processed) ::
      if processed.throws then rest.map fun entry => (entry.1, none) else pollBatch consumer fields rest

end Fluo.Microservices
