import Fluo.Lib.Run

/-!
# The events of one socket

How a connection is bound to its gateways and how its messages and its close are
dispatched. An event of the socket may arrive between any two steps of the
service; a step is what runs without waiting.
-/

namespace Fluo.Websockets.Dispatch

/-- `bufferedMessages` or `queuedMessages`, with its start index. -/
structure Pending (α : Type) where
  messages : List α
  startIndex : Nat

namespace Pending

variable {α : Type}

def empty : Pending α := ⟨[], 0⟩

def count (p : Pending α) : Nat := p.messages.length - p.startIndex

/-- `maybeCompactBufferedMessages` and `maybeCompactQueuedMessages`. -/
def maybeCompact (p : Pending α) : Pending α :=
  if p.startIndex = 0 ∨ 2 * p.startIndex < p.messages.length then p else ⟨p.messages.drop p.startIndex, 0⟩

def push (p : Pending α) (message : α) : Pending α := { p with messages := p.messages ++ [message] }

def dropOldest (p : Pending α) : Pending α := { p with startIndex := p.startIndex + 1 }.maybeCompact

def waiting (p : Pending α) : List α := p.messages.drop p.startIndex

end Pending

inductive OverflowPolicy where
  | dropOldest
  | dropNewest
  | close
  deriving DecidableEq

/-- The module's options; `none` for what is not a finite positive integer. -/
structure ModuleOptions where
  maxPendingMessagesPerSocket : Option Nat
  overflowPolicy : Option OverflowPolicy
  maxPayloadBytes : Option Nat

def positiveOr (fallback : Nat) : Option Nat → Nat
  | some (n + 1) => n + 1
  | _ => fallback

def ModuleOptions.limit (options : ModuleOptions) : Nat := positiveOr 256 options.maxPendingMessagesPerSocket

def ModuleOptions.policy (options : ModuleOptions) : OverflowPolicy := options.overflowPolicy.getD .dropOldest

def ModuleOptions.resolveMaxPayloadBytes (options : ModuleOptions) : Nat := positiveOr 1048576 options.maxPayloadBytes

structure Message where
  byteLength : Nat
  event : Option String
  deriving DecidableEq

structure Gateway where
  connectHandlers : Nat
  disconnectHandlers : Nat
  wildcardMessageHandlers : Nat
  messageHandlersByEvent : String → Nat

def Gateway.messageHandlers (gateway : Gateway) (message : Message) : Nat :=
  gateway.wildcardMessageHandlers + message.event.elim 0 gateway.messageHandlersByEvent

/-- Where `bindConnectionHandlers` waits: for the instances of gateways or for
their connect handlers. -/
inductive Binding where
  | resolving (descriptors : List Gateway)
  | connecting (handlers : Nat)
  | bound
  deriving Inhabited

/-- Where `drainMessageQueue` waits: for the handlers of a message. When it has
ended its `finally` is still to run. -/
inductive Loop where
  | idle
  | dispatching (number : Nat) (handlers : Nat)
  | ended
  deriving DecidableEq

/-- The dispatch of the close, chained on the queue of handlers. -/
inductive Disconnect where
  | none
  | chained
  | scheduled
  | running (handlers : Nat)
  | done
  deriving DecidableEq

structure Connection where
  binding : Binding
  resolved : List Gateway
  handlersReady : Bool
  bufferedMessages : Pending (Nat × Message)
  bufferedDisconnect : Bool
  queuedMessages : Pending (Nat × Message)
  processingMessageQueue : Bool
  loop : Loop
  disconnect : Disconnect
  terminated : Bool
  /-- How many messages have been accepted; they are numbered in order. -/
  accepted : Nat
  /-- What the overflow policy has dropped. -/
  dropped : List Nat
  /-- The messages whose dispatch has started, in order. -/
  dispatched : List Nat
  /-- How many messages had been accepted when the socket closed. -/
  closed : Option Nat
  disconnects : Nat

inductive Admission where
  | pushed
  | pushedDroppingOldest
  | droppedNewest
  | closed

def admission (options : ModuleOptions) (count : Nat) : Admission :=
  if count < options.limit then .pushed
  else match options.policy with
    | .close => .closed
    | .dropOldest => .pushedDroppingOldest
    | .dropNewest => .droppedNewest

/-- The messages of a queue from which the oldest or all are dropped. -/
def numbers (messages : List (Nat × Message)) : List Nat := messages.map Prod.fst

namespace Connection

def initial (descriptors : List Gateway) : Connection :=
  ⟨.resolving descriptors, [], false, .empty, false, .empty, false, .idle, .none, false, 0, [], [], none, 0⟩

/-- An iteration of `drainMessageQueue`, up to the first handler of a message. -/
def next (c : Connection) : Connection :=
  match c.queuedMessages.messages[c.queuedMessages.startIndex]? with
  | some (number, message) =>
    { c with
      queuedMessages := { c.queuedMessages with startIndex := c.queuedMessages.startIndex + 1 }
      dispatched := c.dispatched ++ [number]
      loop := .dispatching number ((c.resolved.map (·.messageHandlers message)).sum) }
  | none => { c with queuedMessages := .empty, loop := .ended }

/-- The end of `enqueueMessageDispatch`. -/
def enqueue (c : Connection) (message : Nat × Message) : Connection :=
  let c := { c with queuedMessages := c.queuedMessages.push message }
  if c.processingMessageQueue then c else { c with processingMessageQueue := true }.next

def enqueueMessageDispatch (options : ModuleOptions) (c : Connection) (message : Nat × Message) : Connection :=
  match admission options c.queuedMessages.count with
  | .pushed => c.enqueue message
  | .pushedDroppingOldest =>
    { c with
      queuedMessages := c.queuedMessages.dropOldest
      dropped := numbers (c.queuedMessages.waiting.take 1) ++ c.dropped }.enqueue message
  | .droppedNewest => { c with dropped := message.1 :: c.dropped }
  | .closed =>
    { c with
      terminated := true
      queuedMessages := .empty
      dropped := numbers c.queuedMessages.waiting ++ message.1 :: c.dropped }

def bufferIncomingMessage (options : ModuleOptions) (c : Connection) (message : Nat × Message) : Connection :=
  match admission options c.bufferedMessages.count with
  | .pushed => { c with bufferedMessages := c.bufferedMessages.push message }
  | .pushedDroppingOldest =>
    { c with
      bufferedMessages := c.bufferedMessages.dropOldest.push message
      dropped := numbers (c.bufferedMessages.waiting.take 1) ++ c.dropped }
  | .droppedNewest => { c with dropped := message.1 :: c.dropped }
  | .closed =>
    { c with
      terminated := true
      bufferedMessages := .empty
      dropped := numbers c.bufferedMessages.waiting ++ message.1 :: c.dropped }

def receive (options : ModuleOptions) (c : Connection) (message : Message) : Connection :=
  if options.resolveMaxPayloadBytes < message.byteLength then c
  else
    let received := { c with accepted := c.accepted + 1 }
    if c.handlersReady then received.enqueueMessageDispatch options (c.accepted, message)
    else received.bufferIncomingMessage options (c.accepted, message)

def enqueueDisconnectDispatch (c : Connection) : Connection :=
  { c with disconnect := if c.loop = .idle then .scheduled else .chained }

def close (c : Connection) : Connection :=
  let closed := { c with closed := some c.accepted }
  if c.handlersReady then closed.enqueueDisconnectDispatch else { closed with bufferedDisconnect := true }

/-- `finalizeConnectionBinding`, with the replay of what has been buffered. -/
def finalizeConnectionBinding (options : ModuleOptions) (c : Connection) : Connection :=
  let ready := { c with binding := .bound, handlersReady := true, bufferedMessages := .empty, bufferedDisconnect := false }
  let replayed := c.bufferedMessages.waiting.foldl (enqueueMessageDispatch options) ready
  if c.bufferedDisconnect then replayed.enqueueDisconnectDispatch else replayed

/-- `bindConnectionHandlers` goes on; `found` when the instance of the gateway it
waits for was resolved. -/
def bind (options : ModuleOptions) (found : Bool) (c : Connection) : Option Connection :=
  match c.binding with
  | .resolving (descriptor :: rest) =>
    some { c with
      binding := .resolving rest
      resolved := if found then c.resolved ++ [descriptor] else c.resolved }
  | .resolving [] => some { c with binding := .connecting (c.resolved.map Gateway.connectHandlers).sum }
  | .connecting (handlers + 1) => some { c with binding := .connecting handlers }
  | .connecting 0 => some (c.finalizeConnectionBinding options)
  | .bound => none

/-- A handler of the message returns; its reply may fail to be sent. Behind the
last one the loop goes on. -/
def dispatch (replyFails : Bool) (c : Connection) : Option Connection :=
  match c.loop with
  | .dispatching number (handlers + 1) =>
    some (if replyFails then { c with loop := .ended } else { c with loop := .dispatching number handlers })
  | .dispatching _ 0 => if replyFails then none else some c.next
  | _ => none

/-- The `finally` of the loop. A close that is chained on it is dispatched next. -/
def finish (c : Connection) : Option Connection :=
  match c.loop with
  | .ended =>
    some { c with
      loop := .idle
      processingMessageQueue := false
      disconnect := if c.disconnect = .chained then .scheduled else c.disconnect }
  | _ => none

def handleDisconnect (c : Connection) : Option Connection :=
  match c.disconnect with
  | .scheduled =>
    some { c with
      disconnect := .running (c.resolved.map Gateway.disconnectHandlers).sum
      disconnects := c.disconnects + 1 }
  | .running (handlers + 1) => some { c with disconnect := .running handlers }
  | .running 0 => some { c with disconnect := .done }
  | _ => none

end Connection

inductive Event where
  | bind (found : Bool)
  | message (message : Message)
  | error
  | close
  | dispatch (replyFails : Bool)
  | finish
  | handleDisconnect

def step (options : ModuleOptions) (c : Connection) : Event → Option Connection
  | .bind found => c.bind options found
  | .message message => some (c.receive options message)
  | .error => some c
  | .close => if c.closed = none then some c.close else none
  | .dispatch replyFails => c.dispatch replyFails
  | .finish => c.finish
  | .handleDisconnect => c.handleDisconnect

end Fluo.Websockets.Dispatch
