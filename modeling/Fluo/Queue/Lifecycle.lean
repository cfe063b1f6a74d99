import Fluo.Lib.Heap
import Fluo.Lib.JsString
import Fluo.Lib.OrderedMap
import Fluo.Lib.Run

/-!
# The queue lifecycle service

Start attempts that callers share, the failure handlers of these callers, the
rollback after a worker could not run, and shutdown. A step is what runs between
two awaits, so the steps of all of them interleave freely.
-/

namespace Fluo.Queue

open Js

inductive ResourceKind where
  | connection
  | queue
  | worker
  deriving DecidableEq

/-- A resource, and the start attempt that has created it. -/
structure Resource where
  kind : ResourceKind
  attempt : Nat

instance : Inhabited Resource := ⟨⟨.connection, 0⟩⟩

inductive QueueLifecycleState where
  | idle
  | starting
  | started
  | failed
  | stopping
  | stopped
  deriving DecidableEq

structure InitializedWorkerResources where
  queue : Nat
  queueConnection : Nat
  worker : Nat
  workerConnection : Nat

/-- Where a `startLifecycle` promise is. -/
inductive Phase where
  /-- At the head of the loop over the descriptors. -/
  | next
  /-- The owned connections of a descriptor, the last one first. -/
  | initializing (jobName : JsString) (connections : List Nat)
  /-- `connect()` of one more connection is awaited. -/
  | connecting (jobName : JsString) (connections : List Nat) (connection : Nat)
  | waiting (jobName : JsString) (resources : InitializedWorkerResources)
  /-- A close is awaited, these are to follow, and then the promise rejects. -/
  | cleaning (rest : List Nat)
  | fulfilled
  | rejected

def Phase.inProgress : Phase → Bool
  | .fulfilled | .rejected => false
  | _ => true

/-- A start attempt; only a second one in progress could change the descriptors
of the first, which share a map. -/
structure Attempt where
  descriptors : List JsString
  phase : Phase
  /-- The calls of `ensureStarted` that await it. -/
  waiters : Nat

instance : Inhabited Attempt := ⟨⟨[], .next, 0⟩⟩

/-- `closeInitializedResources` and then `drainPendingWrites`: a close is awaited
and `rest` is to follow, or the dead-letter writes are awaited. -/
inductive Teardown where
  | closing (rest : List Nat)
  | draining
  | done
  deriving DecidableEq

def Teardown.rest : Teardown → List Nat
  | .closing rest => rest
  | .draining | .done => []

/-- What has been awaited settles. -/
def Teardown.proceed : Teardown → Teardown
  | .closing [] => .draining
  | .closing (_ :: rest) => .closing rest
  | .draining | .done => .done

/-- A call of `handleStartupFailure` by a caller that has awaited the attempt. -/
structure Handler where
  attempt : Nat
  teardown : Teardown

instance : Inhabited Handler := ⟨⟨0, .done⟩⟩

inductive Shutdown where
  | awaitingStart (startup : Option Nat)
  | awaitingRollback
  /-- Fulfilled when this is done. -/
  | tearingDown (teardown : Teardown)
  deriving DecidableEq

structure State where
  lifecycleState : QueueLifecycleState
  startPromise : Option Nat
  attempts : Heap Attempt
  resources : Heap Resource
  /-- The resources that a close was called for, in order. -/
  closeAttempts : List Nat
  queuesByJobName : OrderedMap JsString Nat
  workersByJobName : OrderedMap JsString Nat
  ownedConnections : List Nat
  readyWorkers : List (JsString × Nat)
  scheduled : Option (List (JsString × Nat))
  /-- The workers whose `run` was called; its promise may reject at any time. -/
  ran : List JsString
  failedWorkerJobNames : OrderedSet JsString
  handlers : Heap Handler
  startupFailureRollbackPromise : Option Teardown
  shutdownPromise : Option Shutdown

def State.initial : State where
  lifecycleState := .idle
  startPromise := none
  attempts := .empty
  resources := .empty
  closeAttempts := []
  queuesByJobName := .empty
  workersByJobName := .empty
  ownedConnections := []
  readyWorkers := []
  scheduled := none
  ran := []
  failedWorkerJobNames := .empty
  handlers := .empty
  startupFailureRollbackPromise := none
  shutdownPromise := none

namespace State

/-! ## Closing -/

/-- Attempt the close of the first one; the others wait until it has settled. -/
def attemptClose (s : State) (closing : List Nat) : State :=
  { s with closeAttempts := s.closeAttempts ++ closing.take 1 }

/-- All that `closeInitializedResources` closes, in its order. -/
def initialized (s : State) : List Nat :=
  s.workersByJobName.values ++ s.queuesByJobName.values ++ s.ownedConnections

def closeInitializedResources (s : State) : State :=
  { s.attemptClose s.initialized with
    workersByJobName := .empty
    queuesByJobName := .empty
    ownedConnections := []
    readyWorkers := [] }

/-! ## Starting -/

def setPhase (s : State) (i : Nat) (phase : Phase) : State :=
  { s with attempts := s.attempts.modify i fun attempt => { attempt with phase } }

def create (s : State) (kind : ResourceKind) (attempt : Nat) : State :=
  { s with resources := s.resources.push ⟨kind, attempt⟩ }

/-- `handleStartupFailure` up to its first await. -/
def handleStartupFailure (s : State) (attempt : Nat) : State :=
  { s.closeInitializedResources with
    handlers := s.handlers.push ⟨attempt, .closing s.initialized.tail⟩ }

/-- Initialization throws, after it has closed what it had made. -/
def failInitialization (s : State) (i : Nat) (closing : List Nat) : State :=
  (s.attemptClose closing).setPhase i (.cleaning closing.tail)

def handleStartupFailures (s : State) (attempt : Nat) : Nat → State
  | 0 => s
  | callers + 1 => (s.handleStartupFailure attempt).handleStartupFailures attempt callers

/-- The promise rejects: every caller that awaits it goes on to its handler. -/
def rejectStart (s : State) (i : Nat) : State :=
  (s.setPhase i .rejected).handleStartupFailures i (s.attempts.get i).waiters

/-- The end of `startLifecycle`; the callers that await it drop the promise. -/
def fulfilStart (s : State) (i : Nat) : State :=
  let s := { s.setPhase i .fulfilled with startPromise := none }
  if s.lifecycleState = .starting then
    { s with lifecycleState := .started, scheduled := some s.readyWorkers, readyWorkers := [] }
  else s

def registerInitializedWorker (s : State) (jobName : JsString) (resources : InitializedWorkerResources) : State :=
  { s with
    queuesByJobName := s.queuesByJobName.set jobName resources.queue
    workersByJobName := s.workersByJobName.set jobName resources.worker
    ownedConnections := s.ownedConnections ++ [resources.queueConnection, resources.workerConnection]
    readyWorkers := s.readyWorkers ++ [(jobName, resources.worker)] }

end State

/-- How an operation of an attempt goes. Halfway: a new connection is still to
connect, or the queue is created but its worker is not. -/
inductive Outcome where
  | succeeds
  | halfway
  | fails
  deriving DecidableEq

namespace State

/-- `duplicate()`, as far as `connect()`. -/
def createOwnedConnection (s : State) (i : Nat) (jobName : JsString) (connections : List Nat) : Outcome → State
  | .succeeds => (s.create .connection i).setPhase i (.initializing jobName (s.resources.size :: connections))
  | .halfway => (s.create .connection i).setPhase i (.connecting jobName connections s.resources.size)
  | .fails => s.failInitialization i connections

def createInstances (s : State) (i : Nat) (jobName : JsString) (workerConnection queueConnection : Nat) :
    Outcome → State
  | .succeeds =>
    ((s.create .queue i).create .worker i).setPhase i
      (.waiting jobName ⟨s.resources.size, queueConnection, s.resources.size + 1, workerConnection⟩)
  | .halfway => (s.create .queue i).failInitialization i [s.resources.size, workerConnection, queueConnection]
  | .fails => s.failInitialization i [workerConnection, queueConnection]

/-- The next step of `startLifecycle`. -/
def advance (s : State) (i : Nat) (outcome : Outcome) : Option State :=
  if s.attempts.size ≤ i then none
  else
    match (s.attempts.get i).phase with
    | .next =>
      some <| match (s.attempts.get i).descriptors with
      | [] => s.fulfilStart i
      | jobName :: rest =>
        { s with attempts := s.attempts.modify i fun attempt => { attempt with descriptors := rest } }.createOwnedConnection
          i jobName [] outcome
    | .initializing jobName connections =>
      some <| match connections with
      | [workerConnection, queueConnection] => s.createInstances i jobName workerConnection queueConnection outcome
      | _ => s.createOwnedConnection i jobName connections outcome
    | .connecting jobName connections connection =>
      some <| if outcome = .succeeds then s.setPhase i (.initializing jobName (connection :: connections))
      else s.failInitialization i (connection :: connections)
    | .waiting jobName resources =>
      some <| if outcome = .succeeds then (s.registerInitializedWorker jobName resources).setPhase i .next
      else s.failInitialization i
        [resources.worker, resources.queue, resources.workerConnection, resources.queueConnection]
    | .cleaning [] => some (s.rejectStart i)
    | .cleaning rest => some (s.failInitialization i rest)
    | .fulfilled | .rejected => none

/-- A call of `ensureStarted`, with the job names that it would discover; `none`
when the client or a worker's metadata is refused. -/
def ensureStarted (s : State) (discovered : Option (OrderedSet JsString)) : State :=
  if s.lifecycleState = .idle ∨ s.lifecycleState = .starting then
    match s.startPromise with
    | none =>
      { s with
        lifecycleState := .starting
        startPromise := some s.attempts.size
        attempts := s.attempts.push
          (match discovered with
          | some names => ⟨names.keys, .next, 1⟩
          | none => ⟨[], .cleaning [], 1⟩) }
    | some i =>
      match (s.attempts.get i).phase with
      | .fulfilled => { s with startPromise := none }
      | .rejected => s.handleStartupFailure i
      | _ => { s with attempts := s.attempts.modify i fun attempt => { attempt with waiters := attempt.waiters + 1 } }
  else s

/-- A handler goes on; at its end the caller is given the error. -/
def handlerProceeds (s : State) (h : Nat) : Option State :=
  if s.handlers.size ≤ h then none
  else
    let teardown := (s.handlers.get h).teardown
    let s := { s.attemptClose teardown.rest with
      handlers := s.handlers.modify h fun handler => { handler with teardown := teardown.proceed } }
    match teardown with
    | .closing _ => some s
    | .draining =>
      some { s with
        lifecycleState := if s.lifecycleState = .starting then .idle else s.lifecycleState
        startPromise := none }
    | .done => none

/-! ## Running the workers -/

def rollbackAfterWorkerStartupFailure (s : State) : State :=
  match s.startupFailureRollbackPromise with
  | some _ => s
  | none =>
    { s.closeInitializedResources with startupFailureRollbackPromise := some (.closing s.initialized.tail) }

def recordWorkerStartFailure (s : State) (jobName : JsString) : State :=
  if s.lifecycleState = .stopping ∨ s.lifecycleState = .stopped then s
  else if s.failedWorkerJobNames.has jobName then s
  else
    let failed := s.lifecycleState = .started ∨ s.lifecycleState = .starting
    let s : State :=
      { s with
        failedWorkerJobNames := s.failedWorkerJobNames.set jobName ()
        lifecycleState := if failed then .failed else s.lifecycleState }
    s.rollbackAfterWorkerStartupFailure

/-- Run the ready workers one by one; one whose `run` throws is the last. -/
def runWorkers (runs : JsString → Bool) : List (JsString × Nat) → State → State
  | [], s => s
  | (jobName, _) :: rest, s =>
    if s.lifecycleState ≠ .started then s
    else runWorkers runs rest (if runs jobName then { s with ran := s.ran ++ [jobName] } else s.recordWorkerStartFailure jobName)

/-- The bootstrap-ready signal; `none` when waiting for it fails. -/
def signalReady (s : State) (runs : Option (JsString → Bool)) : Option State :=
  match s.scheduled with
  | none => none
  | some workers =>
    let s := { s with scheduled := none }
    some <| if s.lifecycleState ≠ .started then s
    else
      match runs with
      | some runs => runWorkers runs workers s
      | none => { s with lifecycleState := .failed }.rollbackAfterWorkerStartupFailure

def workerFails (s : State) (jobName : JsString) : Option State :=
  if jobName ∈ s.ran then some (s.recordWorkerStartFailure jobName) else none

def rollbackProceeds (s : State) : Option State :=
  match s.startupFailureRollbackPromise with
  | none | some .done => none
  | some teardown =>
    some { s.attemptClose teardown.rest with startupFailureRollbackPromise := some teardown.proceed }

/-! ## Shutdown -/

def shutdown (s : State) : State :=
  if s.shutdownPromise.isSome ∨ s.lifecycleState = .stopped then s
  else { s with lifecycleState := .stopping, shutdownPromise := some (.awaitingStart s.startPromise) }

def shutdownProceeds (s : State) : Option State :=
  match s.shutdownPromise with
  | none | some (.tearingDown .done) => none
  | some (.awaitingStart startup) =>
    if startup.any fun i => (s.attempts.get i).phase.inProgress then none
    else some { s with shutdownPromise := some .awaitingRollback }
  | some .awaitingRollback =>
    match s.startupFailureRollbackPromise with
    | none | some .done =>
      some { s.closeInitializedResources with
        startupFailureRollbackPromise := none
        shutdownPromise := some (.tearingDown (.closing s.initialized.tail)) }
    | some _ => none
  | some (.tearingDown teardown) =>
    let s := { s.attemptClose teardown.rest with shutdownPromise := some (.tearingDown teardown.proceed) }
    some (if teardown = .draining then { s with lifecycleState := .stopped, startPromise := none } else s)

end State

inductive Action where
  /-- Bootstrap or an `enqueue`. -/
  | ensureStarted (discovered : Option (OrderedSet JsString))
  | advance (attempt : Nat) (outcome : Outcome)
  | handlerProceeds (handler : Nat)
  | signalReady (runs : Option (JsString → Bool))
  | workerFails (jobName : JsString)
  | rollbackProceeds
  | shutdown
  | shutdownProceeds

def step (s : State) : Action → Option State
  | .ensureStarted discovered => some (s.ensureStarted discovered)
  | .advance i outcome => s.advance i outcome
  | .handlerProceeds h => s.handlerProceeds h
  | .signalReady runs => s.signalReady runs
  | .workerFails jobName => s.workerFails jobName
  | .rollbackProceeds => s.rollbackProceeds
  | .shutdown => some s.shutdown
  | .shutdownProceeds => s.shutdownProceeds

/-- The queue that an `enqueue` with this job name adds to, once `ensureStarted`
has returned. -/
def enqueueTarget (s : State) (jobName : JsString) : Option Nat :=
  if s.lifecycleState = .started then s.queuesByJobName.get jobName else none

end Fluo.Queue
