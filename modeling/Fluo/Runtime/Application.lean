import Fluo.Lib.Run

/-!
# Closing an application

`listen()` and `close()` of the HTTP application shell, with the teardown of its
runtime resources and the shells of its connected microservices. A step is what
runs between two calls of code that is not the runtime's own: its callbacks may
call the application again, fail, and register or unregister cleanups.
-/

namespace Fluo.Runtime.Application

/-- What `close()` rejects with; `thrown` is a value that some callback threw. -/
inductive CloseError where
  | thrown (value : Nat)
  | aggregate (errors : List CloseError)

def createLifecycleCloseError : List CloseError → CloseError
  | [error] => error
  | errors => .aggregate errors

/-- The error of a function that throws at its end when it has collected some. -/
def thrownBy : List CloseError → List CloseError
  | [] => []
  | errors => [createLifecycleCloseError errors]

/-- The rejection reason of a call as the errors it adds. -/
def reason : Option Nat → List CloseError
  | none => []
  | some value => [.thrown value]

/-- The phases of a teardown in the order of `closeRuntimeResources`. -/
inductive RuntimeShutdownPhase where
  | readiness
  | runtimeCleanup
  | hooks
  | adapter
  | container
  deriving DecidableEq

def phases : List RuntimeShutdownPhase := [.readiness, .runtimeCleanup, .hooks, .adapter, .container]

/-! ## Connected microservices -/

/-- What the `close()` of a microservice waits for. -/
inductive MicroserviceAwait where
  | markShutdownStarted
  | listen
  | runtimeClose
  deriving DecidableEq

/-- `closingPromise`; a rejected one is kept. -/
inductive MicroserviceClosing where
  | undefined
  | pending (await : MicroserviceAwait)
  | fulfilled
  | rejected (error : CloseError)

/-- A `FluoMicroserviceApplication` with `closeContextOnClose` false. -/
structure Microservice where
  closed : Bool
  closeStarted : Bool
  closingPromise : MicroserviceClosing
  /-- `listenPromise` is set. -/
  listening : Bool
  ready : Bool

inductive MicroserviceEvent where
  | listen
  | listenSettled (error : Option Nat)
  | close
  | marked (error : Option Nat)
  | listenAwaited
  | runtimeClosed (error : Option Nat)

namespace Microservice

def connected : Microservice := ⟨false, false, .undefined, false, false⟩

def listen (m : Microservice) : Microservice :=
  if m.closeStarted ∨ m.ready ∨ m.listening then m else { m with listening := true }

def close (m : Microservice) : Microservice :=
  match m.closingPromise with
  | .undefined => { m with closeStarted := true, closingPromise := .pending .markShutdownStarted }
  | _ => m

def reject (m : Microservice) (value : Nat) : Microservice :=
  { m with closingPromise := .rejected (.thrown value) }

def step (m : Microservice) : MicroserviceEvent → Option Microservice
  | .listen => some m.listen
  | .listenSettled error =>
    if m.listening then
      some { m with listening := false, ready := m.ready || (error.isNone && !m.closeStarted) }
    else none
  | .close => some m.close
  | .marked error =>
    match m.closingPromise with
    | .pending .markShutdownStarted =>
      match error with
      | some value => some (m.reject value)
      | none => some { m with closingPromise := .pending (if m.listening then .listen else .runtimeClose) }
    | _ => none
  | .listenAwaited =>
    match m.closingPromise with
    | .pending .listen => if m.listening then none else some { m with closingPromise := .pending .runtimeClose }
    | _ => none
  | .runtimeClosed error =>
    match m.closingPromise with
    | .pending .runtimeClose =>
      match error with
      | some value => some (m.reject value)
      | none => some { m with closed := true, closingPromise := .fulfilled }
    | _ => none

end Microservice

/-! ## The application shell -/

structure LifecycleInstance where
  onModuleDestroy : Bool
  onApplicationShutdown : Bool

inductive HookCall where
  | onModuleDestroy (instanceIndex : Nat)
  | onApplicationShutdown (instanceIndex : Nat)
  deriving DecidableEq

/-- The calls of `runShutdownHooks` in order: two passes in reverse order. -/
def hookCalls (instances : List LifecycleInstance) : List HookCall :=
  let reversed := instances.zipIdx.reverse
  (reversed.filter (·.1.onModuleDestroy)).map (.onModuleDestroy ·.2) ++
    (reversed.filter (·.1.onApplicationShutdown)).map (.onApplicationShutdown ·.2)

/-- What can be seen of one attempt to close. -/
structure Attempt where
  before : List RuntimeShutdownPhase
  /-- The phases that were attempted, with whether they were completed. -/
  attempted : List (RuntimeShutdownPhase × Bool)
  called : List Nat
  /-- The callbacks that are registered when the loop over them ends. -/
  registered : List Nat
  /-- During the loop a callback was unregistered that had been called. -/
  displaced : Bool

/-- The local variables of an attempt: `errors` of `close()` and of
`closeRuntimeResources()`. -/
structure Closing where
  record : Attempt
  errors : List CloseError
  resourceErrors : List CloseError

inductive CloseAwait where
  | listen
  | unregisterShutdownSignals
  | microservice (index : Nat) (rest : List Nat) (errors : List CloseError)
  | readiness
  /-- The loop over the live array continues at index `next`. -/
  | cleanup (next : Nat) (errors : List CloseError)
  | hook (rest : List HookCall) (errors : List CloseError)
  | adapter
  | container

inductive ClosePromise where
  | pending (closing : Closing) (await : CloseAwait)
  | fulfilled
  /-- The first caller has not reset `closingPromise` yet. -/
  | rejected (error : CloseError)

/-- What `startListening` waits for. -/
inductive StartAwait where
  | readiness
  | adapter
  | shutdownRegistration
  deriving DecidableEq

/-- `startupPromise` with `listenPromise`, which is set in `starting` only. -/
inductive Startup where
  | undefined
  | starting (await : StartAwait)
  /-- The startup has failed, its handler has not called `close()` yet. -/
  | failed
  | settled
  deriving DecidableEq

/-- Who calls `close()`. -/
inductive Caller where
  | host (call : Nat)
  | failedStartup
  deriving DecidableEq

structure State where
  closed : Bool
  closeStarted : Bool
  closingPromise : Option ClosePromise
  startup : Startup
  unregisterShutdownSignals : Bool
  signalCleanupErrors : List CloseError
  connectedMicroservicesClosed : Bool
  connectedMicroservices : List Microservice
  runtimeShutdownState : List RuntimeShutdownPhase
  runtimeCleanup : List Nat
  /-- The calls that wait for the attempt in progress. -/
  waiting : List Caller
  /-- The settled calls; `none` is a fulfilled one. -/
  settled : List (Caller × Option CloseError)
  attempts : List (Attempt × Option CloseError)

def Attempt.begin (before : List RuntimeShutdownPhase) : Attempt := ⟨before, [], [], [], false⟩

def Closing.attempt (c : Closing) (phase : RuntimeShutdownPhase) (errors : List CloseError) : Closing :=
  { c with
    record := { c.record with attempted := c.record.attempted ++ [(phase, errors.isEmpty)] }
    resourceErrors := c.resourceErrors ++ errors }

def Closing.call (c : Closing) (cleanup : Nat) : Closing :=
  { c with record := { c.record with called := c.record.called ++ [cleanup] } }

def Closing.loopEnds (c : Closing) (registered : List Nat) : Closing :=
  { c with record := { c.record with registered := registered } }

def Closing.displace (c : Closing) (displaced : Bool) : Closing :=
  { c with record := { c.record with displaced := c.record.displaced || displaced } }

namespace State

/-- A bootstrapped application with the cleanups registered so far. -/
def bootstrapped (runtimeCleanup : List Nat) : State :=
  ⟨false, false, none, .undefined, false, [], false, [], [], runtimeCleanup, [], [], []⟩

def await (s : State) (c : Closing) (await : CloseAwait) : State :=
  { s with closingPromise := some (.pending c await) }

def complete (s : State) (phase : RuntimeShutdownPhase) (errors : List CloseError) : State :=
  if errors.isEmpty then { s with runtimeShutdownState := phase :: s.runtimeShutdownState } else s

/-- The attempt ends, with the error that its promise is rejected with. -/
def settle (s : State) (c : Closing) (error : Option CloseError) : State :=
  { s with
    closingPromise := some (match error with | none => .fulfilled | some error => .rejected error)
    waiting := []
    settled := s.waiting.map (·, error) ++ s.settled
    attempts := (c.record, error) :: s.attempts }

/-- What `close()` does for an application that is closed. -/
def closedOutcome (s : State) : Option CloseError :=
  if s.signalCleanupErrors.isEmpty then none else some (createLifecycleCloseError s.signalCleanupErrors)

/-- The end of `close()` behind `closeRuntimeResources()`. -/
def finish (s : State) (c : Closing) : State :=
  let errors := c.errors ++ thrownBy c.resourceErrors
  if errors.isEmpty then ({ s with closed := true }).settle c s.closedOutcome
  else s.settle c (some (createLifecycleCloseError (s.signalCleanupErrors ++ errors)))

def disposeContainer (s : State) (c : Closing) : State :=
  if .container ∈ s.runtimeShutdownState then s.finish c else s.await c .container

def closeAdapter (s : State) (c : Closing) : State :=
  if .adapter ∈ s.runtimeShutdownState then s.disposeContainer c else s.await c .adapter

/-- The loops of `runShutdownHooks`. -/
def hooksNext (s : State) (c : Closing) (errors : List CloseError) : List HookCall → State
  | [] => (s.complete .hooks errors).closeAdapter (c.attempt .hooks (thrownBy errors))
  | _ :: rest => s.await c (.hook rest errors)

variable (instances : List LifecycleInstance)

def runShutdownHooks (s : State) (c : Closing) : State :=
  if .hooks ∈ s.runtimeShutdownState then s.closeAdapter c else s.hooksNext c [] (hookCalls instances)

/-- The loop of `runCleanupCallbacks` over the live array. -/
def cleanupNext (s : State) (c : Closing) (errors : List CloseError) (next : Nat) : State :=
  match s.runtimeCleanup[next]? with
  | some cleanup => s.await (c.call cleanup) (.cleanup (next + 1) errors)
  | none =>
    (s.complete .runtimeCleanup errors).runShutdownHooks instances
      ((c.loopEnds s.runtimeCleanup).attempt .runtimeCleanup errors)

def runCleanupCallbacks (s : State) (c : Closing) : State :=
  if .runtimeCleanup ∈ s.runtimeShutdownState then s.runShutdownHooks instances c
  else s.cleanupNext instances c [] 0

def closeRuntimeResources (s : State) (c : Closing) : State :=
  if .readiness ∈ s.runtimeShutdownState then s.runCleanupCallbacks instances c else s.await c .readiness

/-- The loop of `closeConnectedMicroservices`, and its end in `close()`. -/
def microservicesNext (s : State) (c : Closing) (errors : List CloseError) : List Nat → State
  | [] =>
    if errors.isEmpty then ({ s with connectedMicroservicesClosed := true }).closeRuntimeResources instances c
    else s.closeRuntimeResources instances { c with errors := c.errors ++ thrownBy errors }
  | index :: rest =>
    ({ s with connectedMicroservices := s.connectedMicroservices.modify index Microservice.close }).await c
      (.microservice index rest errors)

def closeConnectedMicroservices (s : State) (c : Closing) : State :=
  if s.connectedMicroservicesClosed then s.closeRuntimeResources instances c
  else s.microservicesNext instances c [] (List.range s.connectedMicroservices.length).reverse

def unregister (s : State) (c : Closing) : State :=
  if s.unregisterShutdownSignals then s.await c .unregisterShutdownSignals
  else s.closeConnectedMicroservices instances c

def startClosing (s : State) : State :=
  let s := { s with closeStarted := true }
  let c : Closing := ⟨Attempt.begin s.runtimeShutdownState, [], []⟩
  match s.startup with
  | .starting _ => s.await c .listen
  | _ => s.unregister instances c

def answer (s : State) (caller : Caller) (error : Option CloseError) : State :=
  { s with settled := (caller, error) :: s.settled }

def close (s : State) (caller : Caller) : State :=
  if s.closed then s.answer caller s.closedOutcome
  else
    match s.closingPromise with
    | some (.pending _ _) => { s with waiting := caller :: s.waiting }
    | some .fulfilled => s.answer caller none
    | some (.rejected error) => s.answer caller (some error)
    | none => ({ s with waiting := caller :: s.waiting }).startClosing instances

def listen (s : State) (hasHttpAdapter : Bool) : State :=
  if s.closeStarted ∨ hasHttpAdapter = false ∨ s.startup ≠ .undefined then s
  else { s with startup := .starting .readiness }

/-- A provider calls what `createRuntimeCleanupRegistration` returned for
`cleanup`; the loop in progress, if any, keeps its index. -/
def unregisterCleanup (s : State) (cleanup : Nat) : State :=
  let s' := { s with runtimeCleanup := s.runtimeCleanup.erase cleanup }
  match s.closingPromise with
  | some (.pending c (.cleanup next errors)) =>
    s'.await (c.displace (decide (s.runtimeCleanup.idxOf cleanup < next))) (.cleanup next errors)
  | _ => s'

end State

inductive Event where
  | listen
  /-- What `startListening` waits for has settled. -/
  | started (error : Option Nat)
  | shutdownRegistered (unregister : Bool)
  | startupFailed
  | connected
  | registerCleanup (cleanup : Nat)
  | unregisterCleanup (cleanup : Nat)
  | microservice (index : Nat) (event : MicroserviceEvent)
  | close (call : Nat)
  /-- The attempt sees that the startup or the microservice it waits for has settled. -/
  | listenAwaited
  | microserviceAwaited
  /-- The call that the attempt waits for has returned or settled. -/
  | closeStep (error : Option Nat)
  | reset

/-- The call of `unregisterShutdownSignals` has returned or thrown. -/
def State.unregistered (s : State) (error : Option Nat) : State :=
  { s with unregisterShutdownSignals := false, signalCleanupErrors := s.signalCleanupErrors ++ reason error }

variable (hasHttpAdapter : Bool) (instances : List LifecycleInstance)

/-- The attempt continues behind the call it waits for. -/
def State.closeStep (s : State) (c : Closing) (error : Option Nat) : CloseAwait → Option State
  | .unregisterShutdownSignals =>
    some ((s.unregistered error).closeConnectedMicroservices instances c)
  | .readiness =>
    match error with
    | some value => some (s.finish (c.attempt .readiness [.thrown value]))
    | none => some ((s.complete .readiness []).runCleanupCallbacks instances (c.attempt .readiness []))
  | .cleanup next errors => some (s.cleanupNext instances c (errors ++ reason error) next)
  | .hook rest errors => some (s.hooksNext c (errors ++ reason error) rest)
  | .adapter => some ((s.complete .adapter (reason error)).disposeContainer (c.attempt .adapter (reason error)))
  | .container => some ((s.complete .container (reason error)).finish (c.attempt .container (reason error)))
  | .listen | .microservice .. => none

def step (s : State) : Event → Option State
  | .listen => some (s.listen hasHttpAdapter)
  | .started error =>
    match s.startup, error with
    | .starting _, some _ => some { s with startup := .failed }
    | .starting .readiness, none => some { s with startup := .starting .adapter }
    | .starting .adapter, none =>
      some { s with startup := if s.closeStarted then .failed else .starting .shutdownRegistration }
    | _, _ => none
  | .shutdownRegistered unregister =>
    match s.startup with
    | .starting .shutdownRegistration =>
      some { s with
        unregisterShutdownSignals := unregister
        startup := if s.closeStarted then .failed else .settled }
    | _ => none
  | .startupFailed =>
    match s.startup with
    | .failed => some (({ s with startup := .settled }).close instances .failedStartup)
    | _ => none
  | .connected =>
    if s.closeStarted then none
    else some { s with connectedMicroservices := s.connectedMicroservices ++ [Microservice.connected] }
  | .registerCleanup cleanup => some { s with runtimeCleanup := s.runtimeCleanup ++ [cleanup] }
  | .unregisterCleanup cleanup => some (s.unregisterCleanup cleanup)
  | .microservice index event =>
    (s.connectedMicroservices[index]?.bind (·.step event)).map fun m =>
      { s with connectedMicroservices := s.connectedMicroservices.set index m }
  | .close call => some (s.close instances (.host call))
  | .listenAwaited =>
    match s.closingPromise, s.startup with
    | some (.pending _ .listen), .starting _ => none
    | some (.pending c .listen), _ => some (s.unregister instances c)
    | _, _ => none
  | .microserviceAwaited =>
    match s.closingPromise with
    | some (.pending c (.microservice index rest errors)) =>
      match s.connectedMicroservices[index]?.map Microservice.closingPromise with
      | some .fulfilled => some (s.microservicesNext instances c errors rest)
      | some (.rejected error) => some (s.microservicesNext instances c (errors ++ [error]) rest)
      | _ => none
    | _ => none
  | .closeStep error =>
    match s.closingPromise with
    | some (.pending c await) => s.closeStep instances c error await
    | _ => none
  | .reset =>
    match s.closingPromise with
    | some (.rejected _) => some { s with closingPromise := none }
    | _ => none

end Fluo.Runtime.Application
