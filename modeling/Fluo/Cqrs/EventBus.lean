import Fluo.Cqrs.SagaBus

/-!
# The event bus

The publish pipelines of `CqrsEventBusService`, the shutdown of both services
and the steps of the system.
-/

namespace Fluo.Cqrs

/-! ## Publishing -/

/-- The context that a caller passes, nothing when there is no such caller. -/
def contextOf (s : CqrsState) : Caller → Option (Option CqrsDispatchContext)
  | .external => some none
  | .handler q =>
    if q < s.pipelineCount ∧ (s.pipeline q).phase ≠ .discovering then some (some (s.pipeline q).context) else none
  | .saga x =>
    if x < s.executionCount ∧ (s.execution x).phase ≠ .waiting then some (some (s.execution x).context) else none

def isActive (s : CqrsState) (token : Nat) : Bool := 0 < s.activeTokens token

/-- `assertAcceptingNewWork` of the event bus. -/
def acceptsPublish (s : CqrsState) (context : Option CqrsDispatchContext) : Bool :=
  match s.eventLifecycle with
  | .stopped => false
  | .stopping => (context.bind (·.publishDrainToken)).any (isActive s)
  | .active => true

/-- The context of a pipeline with its drain token; a new token is named after the pipeline. -/
def createPublishContext (context : Option CqrsDispatchContext) (token : Nat) : CqrsDispatchContext × Nat :=
  match context, context.bind (·.publishDrainToken) with
  | some context, some drainToken => (context, drainToken)
  | _, _ => (⟨some token, context.bind (·.sagaContinuationScope), context.bind (·.sagaTopology)⟩, token)

def addPipeline (s : CqrsState) (events : List Nat) (context : Option CqrsDispatchContext) (caller : Caller)
    (awaited : Bool) : CqrsState :=
  let (context, drainToken) := createPublishContext context s.pipelineCount
  let phase := if events = [] then .settled true else .discovering
  { s with
    pipeline := Function.update s.pipeline s.pipelineCount ⟨events, 0, context, drainToken, caller, awaited, phase⟩
    pipelineCount := s.pipelineCount + 1
    authorizedPipelineLeaseCount := s.authorizedPipelineLeaseCount + 1
    activePipelines := s.activePipelines ++ [s.pipelineCount]
    activeTokens := Function.update s.activeTokens drainToken (s.activeTokens drainToken + 1) }

/-- `publish` of one event, or `publishAll`. A call that is rejected changes nothing. -/
def publish (s : CqrsState) (events : List Nat) (caller : Caller) (awaited : Bool) : Option CqrsState :=
  (contextOf s caller).map fun context =>
    if acceptsPublish s context then addPipeline s events context caller awaited else s

/-- `dispatch` of the saga service by a caller. -/
def dispatch (s : CqrsState) (event : Nat) (caller : Caller) : Option CqrsState :=
  (contextOf s caller).map fun context =>
    if assertAcceptingNewWork s then addDispatch s event context none else s

/-! ## Pipelines -/

def CqrsState.setPipeline (s : CqrsState) (p : Nat) (phase : PipelinePhase) : CqrsState :=
  s.modifyPipeline p ({ · with phase })

def PublishPipeline.event (pipeline : PublishPipeline) : Nat := pipeline.events.getD pipeline.index 0

def enterPipeline (graph : CqrsGraph) (s : CqrsState) (p : Nat) (discovers : Bool) : Option CqrsState :=
  if s.pipelineCount ≤ p ∨ (s.pipeline p).phase ≠ .discovering then none
  else if discovers then
    some (s.setPipeline p (.handling (matchEventDescriptors graph (s.pipeline p).event) false))
  else some (s.setPipeline p (.settled false))

/-- The next event handler is invoked, unless its instance cannot be resolved. -/
def startHandler (s : CqrsState) (p : Nat) (resolves : Bool) : Option CqrsState :=
  if s.pipelineCount ≤ p then none
  else
    match (s.pipeline p).phase with
    | .handling (descriptor :: rest) false =>
      if resolves then
        some ((s.setPipeline p (.handling (descriptor :: rest) true)).observe
          (.handler p (s.pipeline p).index descriptor))
      else some (s.setPipeline p (.settled false))
    | _ => none

def finishHandler (s : CqrsState) (p : Nat) (ok : Bool) : Option CqrsState :=
  if s.pipelineCount ≤ p then none
  else
    match (s.pipeline p).phase with
    | .handling (_ :: rest) true =>
      some (s.setPipeline p (if ok then .handling rest false else .settled false))
    | _ => none

def dispatchPipeline (s : CqrsState) (p : Nat) : Option CqrsState :=
  if s.pipelineCount ≤ p ∨ (s.pipeline p).phase ≠ .handling [] false then none
  else
    let pipeline := s.pipeline p
    some ((addDispatch s pipeline.event (some pipeline.context) (some (p, pipeline.index))).setPipeline p
      (.dispatching s.dispatchCount))

/-- The dispatch has settled, and the next event follows. -/
def finishEvent (s : CqrsState) (p : Nat) : Option CqrsState :=
  if s.pipelineCount ≤ p then none
  else
    match (s.pipeline p).phase with
    | .dispatching d =>
      match (s.dispatch d).phase with
      | .settled ok =>
        if d ∈ s.pendingDispatches then none
        else
          let next := (s.pipeline p).index + 1
          if ok then
            some (s.modifyPipeline p fun pipeline => { pipeline with
              index := next
              phase := if next < pipeline.events.length then .discovering else .settled true })
          else some (s.setPipeline p (.settled false))
      | _ => none
    | _ => none

/-- The end of `track`: the pipeline and its token are not active any more. -/
def untrackPipeline (s : CqrsState) (p : Nat) : Option CqrsState :=
  if s.pipelineCount ≤ p then none
  else
    match (s.pipeline p).phase with
    | .settled ok =>
      let token := (s.pipeline p).drainToken
      some { s.setPipeline p (.untracked ok) with
        activePipelines := s.activePipelines.erase p
        activeTokens := Function.update s.activeTokens token (s.activeTokens token - 1) }
    | _ => none

/-- The end of `trackPublishPipeline`. -/
def releasePipeline (s : CqrsState) (p : Nat) : Option CqrsState :=
  if s.pipelineCount ≤ p then none
  else
    match (s.pipeline p).phase with
    | .untracked ok =>
      some (clearStoppedSagaGraphIfQuiescent { s.setPipeline p (.released ok) with
        authorizedPipelineLeaseCount := s.authorizedPipelineLeaseCount - 1 })
    | _ => none

/-! ## Shutdown -/

def LifecycleState.markShutdownStarted : LifecycleState → LifecycleState
  | .stopped => .stopped
  | .active | .stopping => .stopping

/-- The callback that the event bus has registered for the start of the shutdown. -/
def startEventShutdown (s : CqrsState) : CqrsState := { s with eventLifecycle := s.eventLifecycle.markShutdownStarted }

def startSagaShutdown (s : CqrsState) : CqrsState := { s with sagaLifecycle := s.sagaLifecycle.markShutdownStarted }

/-- `onApplicationShutdown` of the event bus. -/
def beginEventHook (s : CqrsState) : Option CqrsState :=
  if s.eventHook ≠ .idle then none
  else some { startEventShutdown s with eventHook := if s.activePipelines = [] then .drained false else .draining }

def endEventDrain (s : CqrsState) (timedOut : Bool) : Option CqrsState :=
  if s.eventHook = .draining ∧ (timedOut = true ∨ s.activePipelines = []) then
    some { s with eventHook := .drained timedOut }
  else none

def finishEventHook (s : CqrsState) : Option CqrsState :=
  match s.eventHook with
  | .drained timedOut => some { s with eventHook := .fulfilled timedOut, eventLifecycle := .stopped }
  | _ => none

/-- `onApplicationShutdown` of the saga service. -/
def beginSagaHook (s : CqrsState) : Option CqrsState :=
  if s.sagaHook ≠ .idle then none else some { startSagaShutdown s with sagaHook := .draining }

def endSagaDrain (s : CqrsState) (timedOut : Bool) : Option CqrsState :=
  if s.sagaHook = .draining ∧ (timedOut = true ∨ s.pendingDispatches = []) then
    some { s with sagaHook := .drained timedOut }
  else none

def finishSagaHook (s : CqrsState) : Option CqrsState :=
  match s.sagaHook with
  | .drained timedOut =>
    some (clearStoppedSagaGraphIfQuiescent { s with sagaHook := .fulfilled timedOut, sagaLifecycle := .stopped })
  | _ => none

/-! ## Events -/

inductive CqrsEvent
  | publish (events : List Nat) (caller : Caller) (awaited : Bool)
  | dispatch (event : Nat) (caller : Caller)
  | enterPipeline (pipeline : Nat) (discovers : Bool)
  | startHandler (pipeline : Nat) (resolves : Bool)
  | finishHandler (pipeline : Nat) (ok : Bool)
  | dispatchPipeline (pipeline : Nat)
  | finishEvent (pipeline : Nat)
  | untrackPipeline (pipeline : Nat)
  | releasePipeline (pipeline : Nat)
  | enterDispatch (dispatch : Nat) (discovers : Bool)
  | joinDispatch (dispatch : Nat)
  | finishDelegated (dispatch : Nat) (ok : Bool)
  | untrackDispatch (dispatch : Nat)
  | startSaga (execution : Nat)
  | failSaga (execution : Nat)
  | finishSaga (execution : Nat) (ok : Bool)
  | settleExecution (execution : Nat)
  | shiftContinuation (execution : Nat)
  | runTask (dispatch task : Nat)
  | joinContinuation (dispatch : Nat)
  | resumeDrain (execution : Nat)
  | startEventShutdown
  | startSagaShutdown
  | beginEventHook
  | endEventDrain (timedOut : Bool)
  | finishEventHook
  | beginSagaHook
  | endSagaDrain (timedOut : Bool)
  | finishSagaHook
  deriving DecidableEq, Repr

def step (graph : CqrsGraph) (s : CqrsState) : CqrsEvent → Option CqrsState
  | .publish events caller awaited => publish s events caller awaited
  | .dispatch event caller => dispatch s event caller
  | .enterPipeline p discovers => enterPipeline graph s p discovers
  | .startHandler p resolves => startHandler s p resolves
  | .finishHandler p ok => finishHandler s p ok
  | .dispatchPipeline p => dispatchPipeline s p
  | .finishEvent p => finishEvent s p
  | .untrackPipeline p => untrackPipeline s p
  | .releasePipeline p => releasePipeline s p
  | .enterDispatch d discovers => enterDispatch graph s d discovers
  | .joinDispatch d => joinDispatch s d
  | .finishDelegated d ok => finishDelegated s d ok
  | .untrackDispatch d => untrackDispatch s d
  | .startSaga x => startSaga s x
  | .failSaga x => failSaga s x
  | .finishSaga x ok => finishSaga s x ok
  | .settleExecution x => settleExecution s x
  | .shiftContinuation x => shiftContinuation s x
  | .runTask d j => runTask s d j
  | .joinContinuation d => joinContinuation s d
  | .resumeDrain x => resumeDrain s x
  | .startEventShutdown => some (startEventShutdown s)
  | .startSagaShutdown => some (startSagaShutdown s)
  | .beginEventHook => beginEventHook s
  | .endEventDrain timedOut => endEventDrain s timedOut
  | .finishEventHook => finishEventHook s
  | .beginSagaHook => beginSagaHook s
  | .endSagaDrain timedOut => endSagaDrain s timedOut
  | .finishSagaHook => finishSagaHook s

end Fluo.Cqrs
