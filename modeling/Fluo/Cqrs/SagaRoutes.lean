import Fluo.Cqrs.Links
import Fluo.Cqrs.SagaOrder

/-!
# Routes of nested sagas

A saga that publishes passes its routes on, so that no route is entered twice
behind itself and nesting has a bound, whatever the order of the steps.
-/

namespace Fluo.Cqrs

open Fluo.Run

def depthOf (context : Option CqrsDispatchContext) : Nat :=
  ((context.bind (·.sagaTopology)).map (·.depth)).getD 0

/-- The active routes differ from each other, and the depth that limits them counts them. -/
structure Bounded (context : Option CqrsDispatchContext) : Prop where
  distinct : (routesOf context).Nodup
  counted : depthOf context = (routesOf context).length
  bound : (routesOf context).length ≤ maxNestedSagaDepth

theorem bounded_none : Bounded none := ⟨List.nodup_nil, rfl, Nat.zero_le _⟩

theorem enterSagaTopology_bounded {context : Option CqrsDispatchContext} {descriptor : SagaDescriptor} {scope : Nat}
    {topology : SagaTopologyEntry} (bounded : Bounded context)
    (entered : enterSagaTopology context descriptor scope = some topology) : Bounded (some topology.context) := by
  obtain ⟨-, -, -, -, routes⟩ := enterSagaTopology_some entered
  unfold enterSagaTopology at entered
  obtain ⟨away, entered⟩ := Option.ite_none_left_eq_some.mp entered
  obtain ⟨room, entered⟩ := Option.ite_none_left_eq_some.mp entered
  have absent : descriptor ∉ routesOf context := fun mem =>
    away (List.any_eq_true.mpr ⟨descriptor, mem, decide_eq_true ⟨rfl, rfl⟩⟩)
  have less : depthOf context < maxNestedSagaDepth := Nat.lt_of_not_le room
  have depth : depthOf (some topology.context) = depthOf context + 1 := by
    cases entered
    rfl
  refine ⟨?_, ?_, ?_⟩ <;> rw [routes]
  · exact List.nodup_append.mpr ⟨bounded.distinct, by simp, fun a mem b own => by
      rw [List.mem_singleton.mp own]
      rintro rfl
      exact absent mem⟩
  · rw [depth, bounded.counted, List.length_append, List.length_singleton]
  · rw [List.length_append, List.length_singleton, ← bounded.counted]
    exact less

theorem createPublishContext_bounded {context : Option CqrsDispatchContext} (bounded : Bounded context) (token : Nat) :
    Bounded (some (createPublishContext context token).1) := by
  obtain ⟨-, routes⟩ := createPublishContext_same context token
  have depth : depthOf (some (createPublishContext context token).1) = depthOf context := by
    unfold createPublishContext
    split <;> rfl
  exact ⟨routes ▸ bounded.distinct, by rw [depth, routes, bounded.counted], routes ▸ bounded.bound⟩

/-! ## Along a run -/

structure Routed (s : CqrsState) : Prop where
  dispatches : ∀ d < s.dispatchCount, Bounded (s.dispatch d).context
  pipelines : ∀ p < s.pipelineCount, Bounded (some (s.pipeline p).context)

/-- The context of an execution is one that its dispatch has entered. -/
theorem Routed.execution {graph : CqrsGraph} {s : CqrsState} (routed : Routed s) (links : Links graph s) {x : Nat}
    (inside : x < s.executionCount) : Bounded (some (s.execution x).context) := by
  obtain ⟨below, -, -, task, mem, is⟩ := links.executions x inside
  obtain ⟨own, entered⟩ := links.task below mem
  rw [(links.tasks _ below task mem x is).context]
  exact enterSagaTopology_bounded (routed.dispatches _ below) entered

theorem Routed.passed {graph : CqrsGraph} {s : CqrsState} (routed : Routed s) (links : Links graph s) {caller : Caller}
    {context : Option CqrsDispatchContext} (passed : contextOf s caller = some context) : Bounded context := by
  cases caller with
  | external =>
    cases passed
    exact bounded_none
  | handler q =>
    obtain ⟨able, is⟩ := Option.ite_none_right_eq_some.mp passed
    cases is
    exact routed.pipelines q able.1
  | saga x =>
    obtain ⟨able, is⟩ := Option.ite_none_right_eq_some.mp passed
    cases is
    exact routed.execution links able.1

theorem Routed.congr {s t : CqrsState} (routed : Routed s) (dispatchCount : t.dispatchCount = s.dispatchCount)
    (dispatch : ∀ d, (t.dispatch d).context = (s.dispatch d).context) (pipelineCount : t.pipelineCount = s.pipelineCount)
    (pipeline : ∀ p, (t.pipeline p).context = (s.pipeline p).context) : Routed t := by
  refine ⟨fun d inside => ?_, fun p inside => ?_⟩
  · rw [dispatch]
    exact routed.dispatches d (dispatchCount ▸ inside)
  · rw [pipeline]
    exact routed.pipelines p (pipelineCount ▸ inside)

theorem Routed.advance {s t : CqrsState} (routed : Routed s) (advance : Advance s t) : Routed t :=
  routed.congr advance.dispatchCount (fun d => (advance.dispatch d).2.1) advance.pipelineCount
    fun p => (advance.pipeline p).1

theorem Routed.modifyDispatch {s : CqrsState} (routed : Routed s) (d : Nat) {f : SagaDispatch → SagaDispatch}
    (context : (f (s.dispatch d)).context = (s.dispatch d).context) : Routed (s.modifyDispatch d f) := by
  refine routed.congr rfl (fun c => ?_) rfl fun _ => rfl
  by_cases same : c = d
  · subst same
    exact (congrArg SagaDispatch.context (Function.update_self _ _ _)).trans context
  · exact congrArg SagaDispatch.context (Function.update_of_ne same _ _)

theorem Routed.addDispatch {s : CqrsState} {context : Option CqrsDispatchContext} (routed : Routed s)
    (bounded : Bounded context) (event : Nat) (publish : Option (Nat × Nat)) :
    Routed (addDispatch s event context publish) := by
  refine ⟨fun d inside => ?_, routed.pipelines⟩
  rcases Nat.lt_succ_iff_lt_or_eq.mp inside with older | rfl
  · rw [show (Fluo.Cqrs.addDispatch s event context publish).dispatch d = s.dispatch d from
      Function.update_of_ne (Nat.ne_of_lt older) _ _]
    exact routed.dispatches d older
  · rw [show (Fluo.Cqrs.addDispatch s event context publish).dispatch s.dispatchCount = _ from Function.update_self _ _ _]
    exact bounded

theorem Routed.addPipeline {s : CqrsState} {context : Option CqrsDispatchContext} (routed : Routed s)
    (bounded : Bounded context) (events : List Nat) (caller : Caller) (awaited : Bool) :
    Routed (addPipeline s events context caller awaited) := by
  refine ⟨routed.dispatches, fun p inside => ?_⟩
  rcases Nat.lt_succ_iff_lt_or_eq.mp inside with older | rfl
  · rw [show (Fluo.Cqrs.addPipeline s events context caller awaited).pipeline p = s.pipeline p from
      Function.update_of_ne (Nat.ne_of_lt older) _ _]
    exact routed.pipelines p older
  · rw [show (Fluo.Cqrs.addPipeline s events context caller awaited).pipeline s.pipelineCount = _ from
      Function.update_self _ _ _]
    exact createPublishContext_bounded bounded _

theorem Routed.step {graph : CqrsGraph} {s t : CqrsState} {e : CqrsEvent} (routed : Routed s) (links : Links graph s)
    (outcome : Outcome graph s e t) : Routed t := by
  cases outcome with
  | refused | refusedDispatch => exact routed
  | published passed => exact routed.addPipeline (routed.passed links passed) _ _ _
  | dispatched passed => exact routed.addDispatch (routed.passed links passed) _ _
  | dispatchedPipeline inside at_ =>
    exact (routed.addDispatch (routed.pipelines _ inside) _ _).advance (advance_modifyPipeline rfl rfl)
  | enteredPipeline | undiscoveredPipeline | unresolvedHandler | finishedHandler | finishedEvent | failedEvent =>
    exact routed.advance (advance_modifyPipeline rfl rfl)
  | startedHandler => exact routed.advance ((advance_modifyPipeline rfl rfl).observe _)
  | @untrackedPipeline p ok =>
    have moved : Advance s (s.setPipeline p (.untracked ok)) := advance_modifyPipeline rfl rfl
    exact routed.advance (moved.trans (.of_eq rfl rfl rfl rfl rfl rfl))
  | @releasedPipeline p ok =>
    have moved : Advance s (s.setPipeline p (.released ok)) := advance_modifyPipeline rfl rfl
    refine routed.advance (Advance.clear ?_)
    exact moved.trans (.of_eq rfl rfl rfl rfl rfl rfl)
  | emptyDispatch | joinedDispatch => exact routed.advance (advance_afterSagas _ _)
  | enteredReentrant inside at_ entered found admitted =>
    obtain ⟨execution, executionCount, executionChains, rfl⟩ := (admitEntries_admitted admitted).frame
    refine Routed.modifyDispatch ?_ _ ?_
    · exact ⟨routed.dispatches, routed.pipelines⟩
    · rfl
  | enteredDispatch inside at_ entered _ _ admitted =>
    obtain ⟨execution, executionCount, executionChains, rfl⟩ := (admitEntries_admitted admitted).frame
    refine Routed.modifyDispatch ?_ _ ?_
    · exact ⟨routed.dispatches, routed.pipelines⟩
    · rfl
  | failedDispatch | rejectedDispatch | delegatedDispatch | delegatedContinuation | joinedDirect | failedContinuation
  | ranScheduled => exact routed.modifyDispatch _ rfl
  | joinedContinuation => exact routed.advance ((advance_modifyDispatch rfl rfl rfl id).observe _)
  | untrackedDispatch =>
    refine routed.advance (Advance.clear ?_)
    exact .of_eq rfl rfl rfl rfl rfl rfl
  | startedSaga => exact routed.advance ((advance_setPhase _ _ _).observe _)
  | failedSaga | finishedSaga | resumed => exact routed.advance (advance_setPhase _ _ _)
  | settledExecution => exact routed.advance ((advance_setPhase s _ _).trans (.of_eq rfl rfl rfl rfl rfl rfl))
  | shifted | ranTask =>
    refine Routed.modifyDispatch ?_ _ ?_
    · exact ⟨routed.dispatches, routed.pipelines⟩
    · rfl
  | @droppedRest x =>
    have moved : Advance s (s.setQueue (s.execution x).continuationScope []) := .of_eq rfl rfl rfl rfl rfl rfl
    exact routed.advance (moved.trans (advance_setPhase _ _ _))
  | finishedSagaHook =>
    refine routed.advance (Advance.clear ?_)
    exact .of_eq rfl rfl rfl rfl rfl rfl
  | _ => exact routed.advance (.of_eq rfl rfl rfl rfl rfl rfl)

theorem routed_run {graph : CqrsGraph} {es : List CqrsEvent} {s : CqrsState}
    (reached : run (step graph) initial es = some s) : Links graph s ∧ Routed s := by
  refine keeps (I := fun s => Links graph s ∧ Routed s) (fun _ _ _ both is => ?_) ⟨links_initial graph, ?_⟩ reached
  · exact ⟨both.1.step (step_outcome is), both.2.step both.1 (step_outcome is)⟩
  · exact ⟨fun _ inside => absurd inside (Nat.not_lt_zero _), fun _ inside => absurd inside (Nat.not_lt_zero _)⟩

/-- A saga runs for an event that it matches, one route behind those of its dispatch, which it is not among, and at
most 32 deep. Pipelines have the routes of the handler or the saga that publishes. -/
theorem saga_routes_bounded {graph : CqrsGraph} {es : List CqrsEvent} {s : CqrsState}
    (reached : run (step graph) initial es = some s) :
    (∀ x < s.executionCount,
      (s.execution x).descriptor ∈ matchSagaDescriptors graph (s.execution x).event ∧
      routesOf (some (s.execution x).context) =
        routesOf (s.dispatch (s.execution x).dispatch).context ++ [(s.execution x).descriptor] ∧
      (s.execution x).descriptor ∉ routesOf (s.dispatch (s.execution x).dispatch).context ∧
      (routesOf (some (s.execution x).context)).Nodup ∧
      (routesOf (some (s.execution x).context)).length ≤ maxNestedSagaDepth) ∧
    ∀ p < s.pipelineCount, Bounded (some (s.pipeline p).context) ∧ CalledBy s p (s.pipeline p).caller := by
  obtain ⟨links, routed⟩ := routed_run reached
  refine ⟨fun x inside => ?_, fun p inside => ⟨routed.pipelines p inside, (links.pipelines p inside).2⟩⟩
  have bounded := routed.execution links inside
  obtain ⟨-, -, routes, -⟩ := links.execution inside
  have apart := bounded.distinct
  rw [routes, List.nodup_append] at apart
  refine ⟨?_, routes, fun mem => apart.2.2 _ mem _ (List.mem_singleton_self _) rfl, bounded.distinct, bounded.bound⟩
  obtain ⟨below, event, -, task, mem, is⟩ := links.executions x inside
  rw [event, (links.tasks _ below task mem x is).descriptor]
  rcases links.entered _ below with none | ⟨first, entered⟩
  · rw [none] at mem
    cases mem
  · rw [← (enterSagaRoutes_mem entered).1, List.map_map]
    exact List.mem_map_of_mem mem

/-- The second saga of token 1 runs behind its first one. -/
theorem saga_routes_bounded_nested :
    ∃ s, run (step fanoutGraph) initial nestedPublish = some s ∧
      (routesOf (some (s.pipeline 1).context)).Nodup ∧ (routesOf (some (s.execution 1).context)).Nodup := by
  have reached : ((run (step fanoutGraph) initial nestedPublish).map fun s => (s.executionCount, s.pipelineCount)) =
      some (4, 2) := by decide
  obtain ⟨s, reached, counts⟩ := Option.map_eq_some_iff.mp reached
  obtain ⟨executions, pipelines⟩ := Prod.mk.inj counts
  have routes := saga_routes_bounded reached
  exact ⟨s, reached, (routes.2 1 (by omega)).1.distinct, (routes.1 1 (by omega)).2.2.2.1⟩

end Fluo.Cqrs
