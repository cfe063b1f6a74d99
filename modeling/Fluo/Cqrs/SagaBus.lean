import Fluo.Lib.Run
import Mathlib.Data.List.Basic
import Mathlib.Logic.Function.Basic

/-!
# The saga bus

Saga topology, the execution chains of `CqrsSagaLifecycleService` and the
continuations that a re-entrant dispatch leaves to an outer saga. A step is
what runs between two awaits.
-/

namespace Fluo.Cqrs

structure SagaDescriptor where
  token : Nat
  eventType : Nat
  deriving DecidableEq, Repr

structure EventHandlerDescriptor where
  token : Nat
  eventType : Nat
  deriving DecidableEq, Repr

/-- What discovery finds, each registration once for an event type. -/
structure CqrsGraph where
  sagas : List SagaDescriptor
  handlers : List EventHandlerDescriptor
  instanceOf : Nat → Nat → Bool
  sagasDistinct : sagas.Nodup
  handlersDistinct : handlers.Nodup

def matchSagaDescriptors (graph : CqrsGraph) (event : Nat) : List SagaDescriptor :=
  graph.sagas.filter fun descriptor => graph.instanceOf event descriptor.eventType

def matchEventDescriptors (graph : CqrsGraph) (event : Nat) : List EventHandlerDescriptor :=
  graph.handlers.filter fun descriptor => graph.instanceOf event descriptor.eventType

/-! ## Saga topology -/

structure SagaTopology where
  activeRoutes : List SagaDescriptor
  depth : Nat
  deriving DecidableEq, Repr

structure CqrsDispatchContext where
  publishDrainToken : Option Nat
  sagaContinuationScope : Option Nat
  sagaTopology : Option SagaTopology
  deriving DecidableEq, Repr

structure SagaTopologyEntry where
  continuationScope : Nat
  context : CqrsDispatchContext
  ownsContinuationScope : Bool
  reentrantToken : Bool
  deriving DecidableEq, Repr

def maxNestedSagaDepth : Nat := 32

/-- Enters one saga route, with a scope to use if there is none. Nothing when the topology is unsafe. -/
def enterSagaTopology (context : Option CqrsDispatchContext) (descriptor : SagaDescriptor) (scope : Nat) :
    Option SagaTopologyEntry :=
  let activeTopology := context.bind (·.sagaTopology)
  let activeRoutes := (activeTopology.map (·.activeRoutes)).getD []
  let depth := (activeTopology.map (·.depth)).getD 0
  if activeRoutes.any (fun route => route.token = descriptor.token ∧ route.eventType = descriptor.eventType) then none
  else if maxNestedSagaDepth ≤ depth then none
  else
    let internalScope := context.bind (·.sagaContinuationScope)
    some {
      continuationScope := internalScope.getD scope
      context := {
        publishDrainToken := context.bind (·.publishDrainToken)
        sagaContinuationScope := some (internalScope.getD scope)
        sagaTopology := some ⟨activeRoutes ++ [descriptor], depth + 1⟩ }
      ownsContinuationScope := internalScope.isNone
      reentrantToken := activeRoutes.any fun route => route.token = descriptor.token }

/-- Enters the routes of a dispatch. A new scope is named after the execution that will own it. -/
def enterSagaRoutes (context : Option CqrsDispatchContext) :
    List SagaDescriptor → Nat → Option (List (SagaDescriptor × SagaTopologyEntry))
  | [], _ => some []
  | descriptor :: rest, scope => do
    let topology ← enterSagaTopology context descriptor scope
    let entries ← enterSagaRoutes context rest (scope + 1)
    some ((descriptor, topology) :: entries)

/-! ## State -/

/-- How far a `dispatchWithOrdering` is. Behind `handling` the next of its token can start. -/
inductive ExecutionPhase
  | waiting
  | handling
  | handled (ok : Bool)
  /-- It awaits the continuation that a dispatch has queued. -/
  | continuing (dispatch : Nat)
  | done (ok : Bool)
  deriving DecidableEq, Repr

structure SagaExecution where
  descriptor : SagaDescriptor
  event : Nat
  context : CqrsDispatchContext
  continuationScope : Nat
  ownsContinuationScope : Bool
  previous : Option Nat
  dispatch : Nat
  phase : ExecutionPhase
  deriving DecidableEq, Repr

/-- A route of a dispatch with its execution, once there is one. -/
structure SagaTask where
  descriptor : SagaDescriptor
  topology : SagaTopologyEntry
  execution : Option Nat
  started : Bool
  deriving DecidableEq, Repr

inductive DispatchPhase
  | discovering
  | waiting
  | publishing
  | settled (ok : Bool)
  deriving DecidableEq, Repr

/-- How far the continuation of a re-entrant dispatch is. -/
inductive ContinuationPhase
  | absent
  | queued
  | running
  | publishing
  | done (ok : Bool)
  deriving DecidableEq, Repr

structure SagaDispatch where
  event : Nat
  context : Option CqrsDispatchContext
  /-- The pipeline, and the place of its event, that publishes behind the sagas. A direct dispatch has none. -/
  publish : Option (Nat × Nat)
  tasks : List SagaTask
  phase : DispatchPhase
  continuation : ContinuationPhase
  deriving DecidableEq, Repr

/-- The states in which work is accepted are one here. -/
inductive LifecycleState
  | active
  | stopping
  | stopped
  deriving DecidableEq, Repr

/-- How far an `onApplicationShutdown` is; `timedOut` says whether its drain has reported a timeout. -/
inductive HookPhase
  | idle
  | draining
  | drained (timedOut : Bool)
  | fulfilled (timedOut : Bool)
  deriving DecidableEq, Repr

inductive PipelinePhase
  | discovering
  | handling (rest : List EventHandlerDescriptor) (running : Bool)
  | dispatching (dispatch : Nat)
  | settled (ok : Bool)
  | untracked (ok : Bool)
  | released (ok : Bool)
  deriving DecidableEq, Repr

inductive Caller
  | external
  | handler (pipeline : Nat)
  | saga (execution : Nat)
  deriving DecidableEq, Repr

structure PublishPipeline where
  events : List Nat
  index : Nat
  context : CqrsDispatchContext
  drainToken : Nat
  caller : Caller
  awaited : Bool
  phase : PipelinePhase
  deriving DecidableEq, Repr

/-- What the outside sees: a handler is invoked, a saga is, a delegated publish is made. -/
inductive Observation
  | handler (pipeline index : Nat) (descriptor : EventHandlerDescriptor)
  | saga (execution : Nat)
  | delegated (dispatch : Nat)
  deriving DecidableEq, Repr

structure CqrsState where
  execution : Nat → SagaExecution
  executionCount : Nat
  /-- By token, the execution whose settlement is the end of the chain. -/
  executionChains : Nat → Option Nat
  queue : Nat → List Nat
  dispatch : Nat → SagaDispatch
  dispatchCount : Nat
  pendingDispatches : List Nat
  authorizedPipelineLeaseCount : Nat
  sagaLifecycle : LifecycleState
  sagaHook : HookPhase
  pipeline : Nat → PublishPipeline
  pipelineCount : Nat
  activePipelines : List Nat
  activeTokens : Nat → Nat
  eventLifecycle : LifecycleState
  eventHook : HookPhase
  log : List Observation

def initial : CqrsState where
  execution := fun _ => ⟨⟨0, 0⟩, 0, ⟨none, none, none⟩, 0, false, none, 0, .done true⟩
  executionCount := 0
  executionChains := fun _ => none
  queue := fun _ => []
  dispatch := fun _ => ⟨0, none, none, [], .settled true, .absent⟩
  dispatchCount := 0
  pendingDispatches := []
  authorizedPipelineLeaseCount := 0
  sagaLifecycle := .active
  sagaHook := .idle
  pipeline := fun _ => ⟨[], 0, ⟨none, none, none⟩, 0, .external, false, .released true⟩
  pipelineCount := 0
  activePipelines := []
  activeTokens := fun _ => 0
  eventLifecycle := .active
  eventHook := .idle
  log := []

def CqrsState.modifyExecution (s : CqrsState) (x : Nat) (f : SagaExecution → SagaExecution) : CqrsState :=
  { s with execution := Function.update s.execution x (f (s.execution x)) }

def CqrsState.setPhase (s : CqrsState) (x : Nat) (phase : ExecutionPhase) : CqrsState :=
  s.modifyExecution x ({ · with phase })

def CqrsState.modifyDispatch (s : CqrsState) (d : Nat) (f : SagaDispatch → SagaDispatch) : CqrsState :=
  { s with dispatch := Function.update s.dispatch d (f (s.dispatch d)) }

def CqrsState.modifyPipeline (s : CqrsState) (p : Nat) (f : PublishPipeline → PublishPipeline) : CqrsState :=
  { s with pipeline := Function.update s.pipeline p (f (s.pipeline p)) }

def CqrsState.setQueue (s : CqrsState) (scope : Nat) (dispatches : List Nat) : CqrsState :=
  { s with queue := Function.update s.queue scope dispatches }

def CqrsState.observe (s : CqrsState) (o : Observation) : CqrsState := { s with log := s.log ++ [o] }

/-! ## Executions -/

/-- `dispatchWithOrdering`: the execution goes to the end of the chain of its token. -/
def dispatchWithOrdering (s : CqrsState) (descriptor : SagaDescriptor) (event : Nat) (topology : SagaTopologyEntry)
    (d : Nat) : CqrsState :=
  { s with
    execution := Function.update s.execution s.executionCount {
      descriptor, event, dispatch := d, phase := .waiting
      context := topology.context
      continuationScope := topology.continuationScope
      ownsContinuationScope := topology.ownsContinuationScope
      previous := s.executionChains descriptor.token }
    executionCount := s.executionCount + 1
    executionChains := Function.update s.executionChains descriptor.token (some s.executionCount) }

def ExecutionPhase.past : ExecutionPhase → Bool
  | .waiting | .handling => false
  | .handled _ | .continuing _ | .done _ => true

def canStart (s : CqrsState) (x : Nat) : Bool :=
  x < s.executionCount && (s.execution x).phase = .waiting &&
    (s.execution x).previous.all fun previous => (s.execution previous).phase.past

def startSaga (s : CqrsState) (x : Nat) : Option CqrsState :=
  if canStart s x then some ((s.setPhase x .handling).observe (.saga x)) else none

def failSaga (s : CqrsState) (x : Nat) : Option CqrsState :=
  if canStart s x then some (s.setPhase x (.handled false)) else none

def finishSaga (s : CqrsState) (x : Nat) (ok : Bool) : Option CqrsState :=
  if x < s.executionCount ∧ (s.execution x).phase = .handling then some (s.setPhase x (.handled ok)) else none

/-- `drainSagaContinuations` takes the next continuation. -/
def shiftContinuation (s : CqrsState) (x : Nat) : Option CqrsState :=
  let execution := s.execution x
  if x < s.executionCount ∧ execution.phase = .handled true ∧ execution.ownsContinuationScope = true then
    match s.queue execution.continuationScope with
    | [] => none
    | d :: rest =>
      some (((s.setQueue execution.continuationScope rest).setPhase x (.continuing d)).modifyDispatch d
        ({ · with continuation := .running }))
  else none

/-- A continuation that has failed drops the ones behind it. -/
def resumeDrain (s : CqrsState) (x : Nat) : Option CqrsState :=
  if s.executionCount ≤ x then none
  else
    match (s.execution x).phase with
    | .continuing d =>
      match (s.dispatch d).continuation with
      | .done true => some (s.setPhase x (.handled true))
      | .done false => some ((s.setQueue (s.execution x).continuationScope []).setPhase x (.handled false))
      | _ => none
    | _ => none

/-- The end of `dispatchWithOrdering`. -/
def settleExecution (s : CqrsState) (x : Nat) : Option CqrsState :=
  let execution := s.execution x
  if s.executionCount ≤ x then none
  else
    match execution.phase with
    | .handled ok =>
      if ok && execution.ownsContinuationScope && s.queue execution.continuationScope ≠ [] then none
      else
        let token := execution.descriptor.token
        let chains := if s.executionChains token = some x then Function.update s.executionChains token none
          else s.executionChains
        some { s.setPhase x (.done ok) with executionChains := chains }
    | _ => none

/-! ## Dispatches -/

def assertAcceptingNewWork (s : CqrsState) : Bool := s.sagaLifecycle = .active

def addDispatch (s : CqrsState) (event : Nat) (context : Option CqrsDispatchContext) (publish : Option (Nat × Nat)) :
    CqrsState :=
  { s with
    dispatch := Function.update s.dispatch s.dispatchCount ⟨event, context, publish, [], .discovering, .absent⟩
    dispatchCount := s.dispatchCount + 1
    pendingDispatches := s.pendingDispatches ++ [s.dispatchCount] }

/-- Admits the entries that are to be admitted at once. -/
def admitEntries (immediate : SagaTopologyEntry → Bool) (event d : Nat) :
    List (SagaDescriptor × SagaTopologyEntry) → CqrsState → CqrsState × List SagaTask
  | [], s => (s, [])
  | (descriptor, topology) :: rest, s =>
    if immediate topology then
      let (t, tasks) := admitEntries immediate event d rest (dispatchWithOrdering s descriptor event topology d)
      (t, ⟨descriptor, topology, some s.executionCount, false⟩ :: tasks)
    else
      let (t, tasks) := admitEntries immediate event d rest s
      (t, ⟨descriptor, topology, none, false⟩ :: tasks)

/-- What follows the sagas of a dispatch that has not left them to a continuation. -/
def afterSagas (s : CqrsState) (d : Nat) : CqrsState :=
  match (s.dispatch d).publish with
  | some _ => (s.modifyDispatch d ({ · with phase := .publishing })).observe (.delegated d)
  | none => s.modifyDispatch d ({ · with phase := .settled true })

/-- `runDispatch` behind its discovery. -/
def enterDispatch (graph : CqrsGraph) (s : CqrsState) (d : Nat) (discovers : Bool) : Option CqrsState :=
  let dispatch := s.dispatch d
  if s.dispatchCount ≤ d ∨ dispatch.phase ≠ .discovering then none
  else if !discovers then some (s.modifyDispatch d ({ · with phase := .settled false }))
  else
    match enterSagaRoutes dispatch.context (matchSagaDescriptors graph dispatch.event) s.executionCount with
    | none => some (s.modifyDispatch d ({ · with phase := .settled false }))
    | some [] => some (afterSagas s d)
    | some entries =>
      match entries.find? (·.2.reentrantToken) with
      | some (_, topology) =>
        let (t, tasks) := admitEntries (·.reentrantToken) dispatch.event d entries s
        let scope := topology.continuationScope
        some ((t.setQueue scope (t.queue scope ++ [d])).modifyDispatch d
          ({ · with tasks, phase := .settled true, continuation := .queued }))
      | none =>
        let (t, tasks) := admitEntries (fun _ => true) dispatch.event d entries s
        some (t.modifyDispatch d ({ · with tasks, phase := .waiting }))

/-- The sagas of a task have settled as it says. -/
def SagaTask.hasSettled (s : CqrsState) (ok : Bool) (task : SagaTask) : Bool :=
  task.execution.any fun x => (s.execution x).phase = .done ok

/-- `Promise.all` over the executions: the first rejection rejects it. -/
def joinDispatch (s : CqrsState) (d : Nat) : Option CqrsState :=
  if s.dispatchCount ≤ d ∨ (s.dispatch d).phase ≠ .waiting then none
  else if (s.dispatch d).tasks.any (·.hasSettled s false) then
    some (s.modifyDispatch d ({ · with phase := .settled false }))
  else if (s.dispatch d).tasks.all (·.hasSettled s true) then some (afterSagas s d)
  else none

/-! ## Continuations -/

/-- Runs a task of a continuation behind the earlier ones of its token. -/
def runTask (s : CqrsState) (d j : Nat) : Option CqrsState :=
  let dispatch := s.dispatch d
  if s.dispatchCount ≤ d ∨ dispatch.continuation ≠ .running then none
  else
    match dispatch.tasks[j]? with
    | none => none
    | some task =>
      let earlier := (dispatch.tasks.take j).filter (·.descriptor.token = task.descriptor.token)
      if !task.started && earlier.all (fun task => task.started && (task.hasSettled s true || task.hasSettled s false)) then
        match task.execution with
        | some _ => some (s.modifyDispatch d fun dispatch =>
            { dispatch with tasks := dispatch.tasks.set j { task with started := true } })
        | none =>
          some ((dispatchWithOrdering s task.descriptor dispatch.event task.topology d).modifyDispatch d fun dispatch =>
            { dispatch with tasks := dispatch.tasks.set j { task with execution := some s.executionCount, started := true } })
      else none

def joinContinuation (s : CqrsState) (d : Nat) : Option CqrsState :=
  let dispatch := s.dispatch d
  if s.dispatchCount ≤ d ∨ dispatch.continuation ≠ .running then none
  else if dispatch.tasks.all (fun task => task.started && task.hasSettled s true) then
    match dispatch.publish with
    | some _ => some ((s.modifyDispatch d ({ · with continuation := .publishing })).observe (.delegated d))
    | none => some (s.modifyDispatch d ({ · with continuation := .done true }))
  else if dispatch.tasks.all (fun task => task.started && (task.hasSettled s true || task.hasSettled s false)) then
    some (s.modifyDispatch d ({ · with continuation := .done false }))
  else none

/-- The delegated publish of a dispatch, or of its continuation, is over. -/
def finishDelegated (s : CqrsState) (d : Nat) (ok : Bool) : Option CqrsState :=
  if s.dispatchCount ≤ d then none
  else if (s.dispatch d).phase = .publishing then some (s.modifyDispatch d ({ · with phase := .settled ok }))
  else if (s.dispatch d).continuation = .publishing then some (s.modifyDispatch d ({ · with continuation := .done ok }))
  else none

/-! ## Tracking -/

def clearStoppedSagaGraphIfQuiescent (s : CqrsState) : CqrsState :=
  if s.sagaLifecycle ≠ .stopped ∨ s.pendingDispatches ≠ [] ∨ 0 < s.authorizedPipelineLeaseCount then s
  else { s with executionChains := fun _ => none }

/-- The end of `trackPendingDispatch`. -/
def untrackDispatch (s : CqrsState) (d : Nat) : Option CqrsState :=
  match (s.dispatch d).phase with
  | .settled _ =>
    if d ∈ s.pendingDispatches then
      some (clearStoppedSagaGraphIfQuiescent { s with pendingDispatches := s.pendingDispatches.erase d })
    else none
  | _ => none

end Fluo.Cqrs
