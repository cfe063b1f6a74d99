import Fluo.Cqrs.EventBus

/-!
# Outcomes

What one step of the system can do, with what has let it.
-/

namespace Fluo.Cqrs

/-- One constructor for each way a step of the buses goes: the event, the conditions
that it found, and the state that it leads to. -/
inductive Outcome (graph : CqrsGraph) (s : CqrsState) : CqrsEvent → CqrsState → Prop
  | refused {events : List Nat} {caller : Caller} {awaited : Bool} {context : Option CqrsDispatchContext}
      (passed : contextOf s caller = some context) (refuses : acceptsPublish s context = false) :
      Outcome graph s (.publish events caller awaited) s
  | published {events : List Nat} {caller : Caller} {awaited : Bool} {context : Option CqrsDispatchContext}
      (passed : contextOf s caller = some context) (accepts : acceptsPublish s context = true) :
      Outcome graph s (.publish events caller awaited) (addPipeline s events context caller awaited)
  | refusedDispatch {event : Nat} {caller : Caller} {context : Option CqrsDispatchContext}
      (passed : contextOf s caller = some context) (refuses : assertAcceptingNewWork s = false) :
      Outcome graph s (.dispatch event caller) s
  | dispatched {event : Nat} {caller : Caller} {context : Option CqrsDispatchContext}
      (passed : contextOf s caller = some context) (accepts : assertAcceptingNewWork s = true) :
      Outcome graph s (.dispatch event caller) (addDispatch s event context none)
  | enteredPipeline {p : Nat} (inside : p < s.pipelineCount) (at_ : (s.pipeline p).phase = .discovering) :
      Outcome graph s (.enterPipeline p true)
        (s.setPipeline p (.handling (matchEventDescriptors graph (s.pipeline p).event) false))
  | undiscoveredPipeline {p : Nat} (inside : p < s.pipelineCount) (at_ : (s.pipeline p).phase = .discovering) :
      Outcome graph s (.enterPipeline p false) (s.setPipeline p (.settled false))
  | startedHandler {p : Nat} {descriptor : EventHandlerDescriptor} {rest : List EventHandlerDescriptor}
      (inside : p < s.pipelineCount) (at_ : (s.pipeline p).phase = .handling (descriptor :: rest) false) :
      Outcome graph s (.startHandler p true)
        ((s.setPipeline p (.handling (descriptor :: rest) true)).observe (.handler p (s.pipeline p).index descriptor))
  | unresolvedHandler {p : Nat} {descriptor : EventHandlerDescriptor} {rest : List EventHandlerDescriptor}
      (inside : p < s.pipelineCount) (at_ : (s.pipeline p).phase = .handling (descriptor :: rest) false) :
      Outcome graph s (.startHandler p false) (s.setPipeline p (.settled false))
  | finishedHandler {p : Nat} {descriptor : EventHandlerDescriptor} {rest : List EventHandlerDescriptor} {ok : Bool}
      (inside : p < s.pipelineCount) (at_ : (s.pipeline p).phase = .handling (descriptor :: rest) true) :
      Outcome graph s (.finishHandler p ok) (s.setPipeline p (if ok then .handling rest false else .settled false))
  | dispatchedPipeline {p : Nat} (inside : p < s.pipelineCount) (at_ : (s.pipeline p).phase = .handling [] false) :
      Outcome graph s (.dispatchPipeline p)
        ((addDispatch s (s.pipeline p).event (some (s.pipeline p).context) (some (p, (s.pipeline p).index))).setPipeline p
          (.dispatching s.dispatchCount))
  | finishedEvent {p d : Nat} (inside : p < s.pipelineCount) (at_ : (s.pipeline p).phase = .dispatching d)
      (settled : (s.dispatch d).phase = .settled true) (tracked : d ∉ s.pendingDispatches) :
      Outcome graph s (.finishEvent p) (s.modifyPipeline p fun pipeline => { pipeline with
        index := (s.pipeline p).index + 1
        phase := if (s.pipeline p).index + 1 < pipeline.events.length then .discovering else .settled true })
  | failedEvent {p d : Nat} (inside : p < s.pipelineCount) (at_ : (s.pipeline p).phase = .dispatching d)
      (settled : (s.dispatch d).phase = .settled false) (tracked : d ∉ s.pendingDispatches) :
      Outcome graph s (.finishEvent p) (s.setPipeline p (.settled false))
  | untrackedPipeline {p : Nat} {ok : Bool} (inside : p < s.pipelineCount) (at_ : (s.pipeline p).phase = .settled ok) :
      Outcome graph s (.untrackPipeline p) { s.setPipeline p (.untracked ok) with
        activePipelines := s.activePipelines.erase p
        activeTokens := Function.update s.activeTokens (s.pipeline p).drainToken
          (s.activeTokens (s.pipeline p).drainToken - 1) }
  | releasedPipeline {p : Nat} {ok : Bool} (inside : p < s.pipelineCount) (at_ : (s.pipeline p).phase = .untracked ok) :
      Outcome graph s (.releasePipeline p) (clearStoppedSagaGraphIfQuiescent { s.setPipeline p (.released ok) with
        authorizedPipelineLeaseCount := s.authorizedPipelineLeaseCount - 1 })
  | failedDispatch {d : Nat} {discovers : Bool} (inside : d < s.dispatchCount)
      (at_ : (s.dispatch d).phase = .discovering) :
      Outcome graph s (.enterDispatch d discovers) (s.modifyDispatch d ({ · with phase := .settled false }))
  | emptyDispatch {d : Nat} (inside : d < s.dispatchCount) (at_ : (s.dispatch d).phase = .discovering)
      (entered : enterSagaRoutes (s.dispatch d).context (matchSagaDescriptors graph (s.dispatch d).event)
        s.executionCount = some []) :
      Outcome graph s (.enterDispatch d true) (afterSagas s d)
  | enteredReentrant {d : Nat} {entries : List (SagaDescriptor × SagaTopologyEntry)} {descriptor : SagaDescriptor}
      {topology : SagaTopologyEntry} {t : CqrsState} {tasks : List SagaTask} (inside : d < s.dispatchCount)
      (at_ : (s.dispatch d).phase = .discovering)
      (entered : enterSagaRoutes (s.dispatch d).context (matchSagaDescriptors graph (s.dispatch d).event)
        s.executionCount = some entries)
      (found : entries.find? (·.2.reentrantToken) = some (descriptor, topology))
      (admitted : admitEntries (·.reentrantToken) (s.dispatch d).event d entries s = (t, tasks)) :
      Outcome graph s (.enterDispatch d true)
        ((t.setQueue topology.continuationScope (t.queue topology.continuationScope ++ [d])).modifyDispatch d
          ({ · with tasks, phase := .settled true, continuation := .queued }))
  | enteredDispatch {d : Nat} {entries : List (SagaDescriptor × SagaTopologyEntry)} {t : CqrsState}
      {tasks : List SagaTask} (inside : d < s.dispatchCount) (at_ : (s.dispatch d).phase = .discovering)
      (entered : enterSagaRoutes (s.dispatch d).context (matchSagaDescriptors graph (s.dispatch d).event)
        s.executionCount = some entries) (nonempty : entries ≠ [])
      (absent : entries.find? (·.2.reentrantToken) = none)
      (admitted : admitEntries (fun _ => true) (s.dispatch d).event d entries s = (t, tasks)) :
      Outcome graph s (.enterDispatch d true) (t.modifyDispatch d ({ · with tasks, phase := .waiting }))
  | rejectedDispatch {d : Nat} (inside : d < s.dispatchCount) (at_ : (s.dispatch d).phase = .waiting)
      (failed : (s.dispatch d).tasks.any (·.hasSettled s false) = true) :
      Outcome graph s (.joinDispatch d) (s.modifyDispatch d ({ · with phase := .settled false }))
  | joinedDispatch {d : Nat} (inside : d < s.dispatchCount) (at_ : (s.dispatch d).phase = .waiting)
      (all : (s.dispatch d).tasks.all (·.hasSettled s true) = true) :
      Outcome graph s (.joinDispatch d) (afterSagas s d)
  | delegatedDispatch {d : Nat} {ok : Bool} (inside : d < s.dispatchCount)
      (at_ : (s.dispatch d).phase = .publishing) :
      Outcome graph s (.finishDelegated d ok) (s.modifyDispatch d ({ · with phase := .settled ok }))
  | delegatedContinuation {d : Nat} {ok : Bool} (inside : d < s.dispatchCount)
      (at_ : (s.dispatch d).continuation = .publishing) :
      Outcome graph s (.finishDelegated d ok) (s.modifyDispatch d ({ · with continuation := .done ok }))
  | untrackedDispatch {d : Nat} {ok : Bool} (at_ : (s.dispatch d).phase = .settled ok) (tracked : d ∈ s.pendingDispatches) :
      Outcome graph s (.untrackDispatch d)
        (clearStoppedSagaGraphIfQuiescent { s with pendingDispatches := s.pendingDispatches.erase d })
  | startedSaga {x : Nat} (can : canStart s x = true) :
      Outcome graph s (.startSaga x) ((s.setPhase x .handling).observe (.saga x))
  | failedSaga {x : Nat} (can : canStart s x = true) :
      Outcome graph s (.failSaga x) (s.setPhase x (.handled false))
  | finishedSaga {x : Nat} {ok : Bool} (inside : x < s.executionCount) (at_ : (s.execution x).phase = .handling) :
      Outcome graph s (.finishSaga x ok) (s.setPhase x (.handled ok))
  | settledExecution {x : Nat} {ok : Bool} (inside : x < s.executionCount) (at_ : (s.execution x).phase = .handled ok)
      (drained : ok = true → (s.execution x).ownsContinuationScope = true →
        s.queue (s.execution x).continuationScope = []) :
      Outcome graph s (.settleExecution x) { s.setPhase x (.done ok) with
        executionChains := if s.executionChains (s.execution x).descriptor.token = some x then
          Function.update s.executionChains (s.execution x).descriptor.token none else s.executionChains }
  | shifted {x d : Nat} {rest : List Nat} (inside : x < s.executionCount) (at_ : (s.execution x).phase = .handled true)
      (owns : (s.execution x).ownsContinuationScope = true)
      (queued : s.queue (s.execution x).continuationScope = d :: rest) :
      Outcome graph s (.shiftContinuation x)
        (((s.setQueue (s.execution x).continuationScope rest).setPhase x (.continuing d)).modifyDispatch d
          ({ · with continuation := .running }))
  | ranScheduled {d j y : Nat} {task : SagaTask} (inside : d < s.dispatchCount)
      (at_ : (s.dispatch d).continuation = .running) (here : (s.dispatch d).tasks[j]? = some task)
      (idle : task.started = false) (scheduled : task.execution = some y) :
      Outcome graph s (.runTask d j) (s.modifyDispatch d fun dispatch =>
        { dispatch with tasks := dispatch.tasks.set j { task with started := true } })
  | ranTask {d j : Nat} {task : SagaTask} (inside : d < s.dispatchCount)
      (at_ : (s.dispatch d).continuation = .running) (here : (s.dispatch d).tasks[j]? = some task)
      (idle : task.started = false) (unscheduled : task.execution = none) :
      Outcome graph s (.runTask d j)
        ((dispatchWithOrdering s task.descriptor (s.dispatch d).event task.topology d).modifyDispatch d fun dispatch =>
          { dispatch with tasks := dispatch.tasks.set j { task with execution := some s.executionCount, started := true } })
  | joinedContinuation {d : Nat} {publish : Nat × Nat} (inside : d < s.dispatchCount)
      (at_ : (s.dispatch d).continuation = .running)
      (all : (s.dispatch d).tasks.all (fun task => task.started && task.hasSettled s true) = true)
      (publishes : (s.dispatch d).publish = some publish) :
      Outcome graph s (.joinContinuation d)
        ((s.modifyDispatch d ({ · with continuation := .publishing })).observe (.delegated d))
  | joinedDirect {d : Nat} (inside : d < s.dispatchCount) (at_ : (s.dispatch d).continuation = .running)
      (all : (s.dispatch d).tasks.all (fun task => task.started && task.hasSettled s true) = true)
      (direct : (s.dispatch d).publish = none) :
      Outcome graph s (.joinContinuation d) (s.modifyDispatch d ({ · with continuation := .done true }))
  | failedContinuation {d : Nat} (inside : d < s.dispatchCount) (at_ : (s.dispatch d).continuation = .running)
      (all : (s.dispatch d).tasks.all
        (fun task => task.started && (task.hasSettled s true || task.hasSettled s false)) = true) :
      Outcome graph s (.joinContinuation d) (s.modifyDispatch d ({ · with continuation := .done false }))
  | resumed {x d : Nat} (inside : x < s.executionCount) (at_ : (s.execution x).phase = .continuing d)
      (done : (s.dispatch d).continuation = .done true) :
      Outcome graph s (.resumeDrain x) (s.setPhase x (.handled true))
  | droppedRest {x d : Nat} (inside : x < s.executionCount) (at_ : (s.execution x).phase = .continuing d)
      (done : (s.dispatch d).continuation = .done false) :
      Outcome graph s (.resumeDrain x)
        ((s.setQueue (s.execution x).continuationScope []).setPhase x (.handled false))
  | startedEventShutdown : Outcome graph s .startEventShutdown (startEventShutdown s)
  | startedSagaShutdown : Outcome graph s .startSagaShutdown (startSagaShutdown s)
  | begunEventHook (idle : s.eventHook = .idle) :
      Outcome graph s .beginEventHook
        { startEventShutdown s with eventHook := if s.activePipelines = [] then .drained false else .draining }
  | endedEventDrain {timedOut : Bool} (draining : s.eventHook = .draining)
      (quiet : timedOut = true ∨ s.activePipelines = []) :
      Outcome graph s (.endEventDrain timedOut) { s with eventHook := .drained timedOut }
  | finishedEventHook {timedOut : Bool} (drained : s.eventHook = .drained timedOut) :
      Outcome graph s .finishEventHook { s with eventHook := .fulfilled timedOut, eventLifecycle := .stopped }
  | begunSagaHook (idle : s.sagaHook = .idle) :
      Outcome graph s .beginSagaHook { startSagaShutdown s with sagaHook := .draining }
  | endedSagaDrain {timedOut : Bool} (draining : s.sagaHook = .draining)
      (quiet : timedOut = true ∨ s.pendingDispatches = []) :
      Outcome graph s (.endSagaDrain timedOut) { s with sagaHook := .drained timedOut }
  | finishedSagaHook {timedOut : Bool} (drained : s.sagaHook = .drained timedOut) :
      Outcome graph s .finishSagaHook
        (clearStoppedSagaGraphIfQuiescent { s with sagaHook := .fulfilled timedOut, sagaLifecycle := .stopped })

theorem publish_outcome {graph : CqrsGraph} {s t : CqrsState} {events : List Nat} {caller : Caller} {awaited : Bool}
    (h : publish s events caller awaited = some t) : Outcome graph s (.publish events caller awaited) t := by
  obtain ⟨context, passed, rfl⟩ := Option.map_eq_some_iff.mp h
  split
  · next accepts => exact .published passed accepts
  · next refuses => exact .refused passed (Bool.eq_false_iff.mpr refuses)

theorem dispatch_outcome {graph : CqrsGraph} {s t : CqrsState} {event : Nat} {caller : Caller}
    (h : dispatch s event caller = some t) : Outcome graph s (.dispatch event caller) t := by
  obtain ⟨context, passed, rfl⟩ := Option.map_eq_some_iff.mp h
  split
  · next accepts => exact .dispatched passed accepts
  · next refuses => exact .refusedDispatch passed (Bool.eq_false_iff.mpr refuses)

theorem enterPipeline_outcome {graph : CqrsGraph} {s t : CqrsState} {p : Nat} {discovers : Bool}
    (h : enterPipeline graph s p discovers = some t) : Outcome graph s (.enterPipeline p discovers) t := by
  unfold enterPipeline at h
  split at h
  · cases h
  · next able =>
    simp only [not_or, Nat.not_le, ne_eq, not_not] at able
    split at h
    · next yes =>
      cases h
      subst yes
      exact .enteredPipeline able.1 able.2
    · next no =>
      cases h
      rw [Bool.not_eq_true] at no
      subst no
      exact .undiscoveredPipeline able.1 able.2

theorem startHandler_outcome {graph : CqrsGraph} {s t : CqrsState} {p : Nat} {resolves : Bool}
    (h : startHandler s p resolves = some t) : Outcome graph s (.startHandler p resolves) t := by
  unfold startHandler at h
  split at h
  · cases h
  · next inside =>
    split at h
    · next descriptor rest at_ =>
      cases resolves with
      | true => cases h; exact .startedHandler (Nat.lt_of_not_le inside) at_
      | false => cases h; exact .unresolvedHandler (Nat.lt_of_not_le inside) at_
    · cases h

theorem finishHandler_outcome {graph : CqrsGraph} {s t : CqrsState} {p : Nat} {ok : Bool}
    (h : finishHandler s p ok = some t) : Outcome graph s (.finishHandler p ok) t := by
  unfold finishHandler at h
  split at h
  · cases h
  · next inside =>
    split at h
    · next at_ => cases h; exact .finishedHandler (Nat.lt_of_not_le inside) at_
    · cases h

theorem dispatchPipeline_outcome {graph : CqrsGraph} {s t : CqrsState} {p : Nat} (h : dispatchPipeline s p = some t) :
    Outcome graph s (.dispatchPipeline p) t := by
  unfold dispatchPipeline at h
  split at h
  · cases h
  · next able =>
    simp only [not_or, Nat.not_le, ne_eq, not_not] at able
    cases h
    exact .dispatchedPipeline able.1 able.2

theorem finishEvent_outcome {graph : CqrsGraph} {s t : CqrsState} {p : Nat} (h : finishEvent s p = some t) :
    Outcome graph s (.finishEvent p) t := by
  unfold finishEvent at h
  split at h
  · cases h
  · next inside =>
    split at h
    · next d at_ =>
      split at h
      · next ok settled =>
        split at h
        · cases h
        · next tracked =>
          cases ok with
          | true => cases h; exact .finishedEvent (Nat.lt_of_not_le inside) at_ settled tracked
          | false => cases h; exact .failedEvent (Nat.lt_of_not_le inside) at_ settled tracked
      · cases h
    · cases h

theorem untrackPipeline_outcome {graph : CqrsGraph} {s t : CqrsState} {p : Nat} (h : untrackPipeline s p = some t) :
    Outcome graph s (.untrackPipeline p) t := by
  unfold untrackPipeline at h
  split at h
  · cases h
  · next inside =>
    split at h
    · next at_ => cases h; exact .untrackedPipeline (Nat.lt_of_not_le inside) at_
    · cases h

theorem releasePipeline_outcome {graph : CqrsGraph} {s t : CqrsState} {p : Nat} (h : releasePipeline s p = some t) :
    Outcome graph s (.releasePipeline p) t := by
  unfold releasePipeline at h
  split at h
  · cases h
  · next inside =>
    split at h
    · next at_ => cases h; exact .releasedPipeline (Nat.lt_of_not_le inside) at_
    · cases h

theorem enterDispatch_outcome {graph : CqrsGraph} {s t : CqrsState} {d : Nat} {discovers : Bool}
    (h : enterDispatch graph s d discovers = some t) : Outcome graph s (.enterDispatch d discovers) t := by
  unfold enterDispatch at h
  dsimp only at h
  split at h
  · cases h
  · next able =>
    simp only [not_or, Nat.not_le, ne_eq, not_not] at able
    obtain ⟨inside, at_⟩ := able
    split at h
    · cases h
      exact .failedDispatch inside at_
    · next found =>
      simp only [Bool.not_eq_true, Bool.not_eq_false'] at found
      subst found
      split at h
      · cases h
        exact .failedDispatch inside at_
      · next entered =>
        cases h
        exact .emptyDispatch inside at_ entered
      · next entries nonempty entered =>
        split at h
        · next descriptor topology found =>
          cases h
          exact .enteredReentrant inside at_ entered found rfl
        · next absent =>
          cases h
          exact .enteredDispatch inside at_ entered nonempty absent rfl

theorem joinDispatch_outcome {graph : CqrsGraph} {s t : CqrsState} {d : Nat} (h : joinDispatch s d = some t) :
    Outcome graph s (.joinDispatch d) t := by
  unfold joinDispatch at h
  split at h
  · cases h
  · next able =>
    simp only [not_or, Nat.not_le, ne_eq, not_not] at able
    split at h
    · next failed => cases h; exact .rejectedDispatch able.1 able.2 failed
    · split at h
      · next all => cases h; exact .joinedDispatch able.1 able.2 all
      · cases h

theorem finishDelegated_outcome {graph : CqrsGraph} {s t : CqrsState} {d : Nat} {ok : Bool}
    (h : finishDelegated s d ok = some t) : Outcome graph s (.finishDelegated d ok) t := by
  unfold finishDelegated at h
  split at h
  · cases h
  · next inside =>
    split at h
    · next at_ => cases h; exact .delegatedDispatch (Nat.lt_of_not_le inside) at_
    · split at h
      · next at_ => cases h; exact .delegatedContinuation (Nat.lt_of_not_le inside) at_
      · cases h

theorem untrackDispatch_outcome {graph : CqrsGraph} {s t : CqrsState} {d : Nat} (h : untrackDispatch s d = some t) :
    Outcome graph s (.untrackDispatch d) t := by
  unfold untrackDispatch at h
  split at h
  · next at_ =>
    split at h
    · next tracked => cases h; exact .untrackedDispatch at_ tracked
    · cases h
  · cases h

theorem settleExecution_outcome {graph : CqrsGraph} {s t : CqrsState} {x : Nat} (h : settleExecution s x = some t) :
    Outcome graph s (.settleExecution x) t := by
  unfold settleExecution at h
  dsimp only at h
  split at h
  · cases h
  · next inside =>
    split at h
    · next ok at_ =>
      split at h
      · cases h
      · next drained =>
        cases h
        refine .settledExecution (Nat.lt_of_not_le inside) at_ fun isOk owns => ?_
        rw [isOk, owns] at drained
        simpa using drained
    · cases h

theorem shiftContinuation_outcome {graph : CqrsGraph} {s t : CqrsState} {x : Nat} (h : shiftContinuation s x = some t) :
    Outcome graph s (.shiftContinuation x) t := by
  unfold shiftContinuation at h
  dsimp only at h
  split at h
  · next able =>
    split at h
    · cases h
    · next queued =>
      cases h
      exact .shifted able.1 able.2.1 able.2.2 queued
  · cases h

theorem runTask_outcome {graph : CqrsGraph} {s t : CqrsState} {d j : Nat} (h : runTask s d j = some t) :
    Outcome graph s (.runTask d j) t := by
  unfold runTask at h
  dsimp only at h
  split at h
  · cases h
  · next able =>
    simp only [not_or, Nat.not_le, ne_eq, not_not] at able
    split at h
    · cases h
    · next task here =>
      split at h
      · next idle =>
        simp only [Bool.and_eq_true, Bool.not_eq_true'] at idle
        split at h
        · next scheduled => cases h; exact .ranScheduled able.1 able.2 here idle.1 scheduled
        · next unscheduled => cases h; exact .ranTask able.1 able.2 here idle.1 unscheduled
      · cases h

theorem joinContinuation_outcome {graph : CqrsGraph} {s t : CqrsState} {d : Nat} (h : joinContinuation s d = some t) :
    Outcome graph s (.joinContinuation d) t := by
  unfold joinContinuation at h
  dsimp only at h
  split at h
  · cases h
  · next able =>
    simp only [not_or, Nat.not_le, ne_eq, not_not] at able
    split at h
    · next all =>
      split at h
      · next publishes => cases h; exact .joinedContinuation able.1 able.2 all publishes
      · next direct => cases h; exact .joinedDirect able.1 able.2 all direct
    · split at h
      · next all => cases h; exact .failedContinuation able.1 able.2 all
      · cases h

theorem resumeDrain_outcome {graph : CqrsGraph} {s t : CqrsState} {x : Nat} (h : resumeDrain s x = some t) :
    Outcome graph s (.resumeDrain x) t := by
  unfold resumeDrain at h
  split at h
  · cases h
  · next inside =>
    split at h
    · next d at_ =>
      split at h
      · next done => cases h; exact .resumed (Nat.lt_of_not_le inside) at_ done
      · next done => cases h; exact .droppedRest (Nat.lt_of_not_le inside) at_ done
      · cases h
    · cases h

/-- A step that is taken is one of these, so an invariant is kept once each of them
keeps it. -/
theorem step_outcome {graph : CqrsGraph} {s t : CqrsState} {e : CqrsEvent} (h : step graph s e = some t) :
    Outcome graph s e t := by
  cases e with
  | publish => exact publish_outcome h
  | dispatch => exact dispatch_outcome h
  | enterPipeline => exact enterPipeline_outcome h
  | startHandler => exact startHandler_outcome h
  | finishHandler => exact finishHandler_outcome h
  | dispatchPipeline => exact dispatchPipeline_outcome h
  | finishEvent => exact finishEvent_outcome h
  | untrackPipeline => exact untrackPipeline_outcome h
  | releasePipeline => exact releasePipeline_outcome h
  | enterDispatch => exact enterDispatch_outcome h
  | joinDispatch => exact joinDispatch_outcome h
  | finishDelegated => exact finishDelegated_outcome h
  | untrackDispatch => exact untrackDispatch_outcome h
  | startSaga =>
    obtain ⟨can, is⟩ := Option.ite_none_right_eq_some.mp h
    cases is
    exact .startedSaga can
  | failSaga =>
    obtain ⟨can, is⟩ := Option.ite_none_right_eq_some.mp h
    cases is
    exact .failedSaga can
  | finishSaga =>
    obtain ⟨able, is⟩ := Option.ite_none_right_eq_some.mp h
    cases is
    exact .finishedSaga able.1 able.2
  | settleExecution => exact settleExecution_outcome h
  | shiftContinuation => exact shiftContinuation_outcome h
  | runTask => exact runTask_outcome h
  | joinContinuation => exact joinContinuation_outcome h
  | resumeDrain => exact resumeDrain_outcome h
  | startEventShutdown => cases h; exact .startedEventShutdown
  | startSagaShutdown => cases h; exact .startedSagaShutdown
  | beginEventHook =>
    obtain ⟨idle, is⟩ := Option.ite_none_left_eq_some.mp h
    cases is
    exact .begunEventHook (not_not.mp idle)
  | endEventDrain =>
    obtain ⟨able, is⟩ := Option.ite_none_right_eq_some.mp h
    cases is
    exact .endedEventDrain able.1 able.2
  | finishEventHook =>
    simp only [step, finishEventHook] at h
    split at h
    · next drained => cases h; exact .finishedEventHook drained
    · cases h
  | beginSagaHook =>
    obtain ⟨idle, is⟩ := Option.ite_none_left_eq_some.mp h
    cases is
    exact .begunSagaHook (not_not.mp idle)
  | endSagaDrain =>
    obtain ⟨able, is⟩ := Option.ite_none_right_eq_some.mp h
    cases is
    exact .endedSagaDrain able.1 able.2
  | finishSagaHook =>
    simp only [step, finishSagaHook] at h
    split at h
    · next drained => cases h; exact .finishedSagaHook drained
    · cases h

end Fluo.Cqrs
