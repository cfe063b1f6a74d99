import Fluo.Cqrs.Links

/-!
# The flow of a dispatch

What the phases of dispatches, continuations and executions say of each other,
in every state that can be reached.
-/

namespace Fluo.Cqrs

open Fluo.Run

def Executed (tasks : List SagaTask) : Prop := ∀ task ∈ tasks, task.execution ≠ none

def DoneWell (s : CqrsState) (tasks : List SagaTask) : Prop :=
  ∀ task ∈ tasks, ∃ x, task.execution = some x ∧ (s.execution x).phase = .done true

def Over (s : CqrsState) (tasks : List SagaTask) : Prop :=
  ∀ task ∈ tasks, ∃ x ok, task.execution = some x ∧ (s.execution x).phase = .done ok

def ContinuationPhase.begun : ContinuationPhase → Bool
  | .absent | .queued => false
  | .running | .publishing | .done _ => true

structure Flow (s : CqrsState) : Prop where
  waiting : ∀ d < s.dispatchCount, (s.dispatch d).phase = .waiting →
    (s.dispatch d).continuation = .absent ∧ Executed (s.dispatch d).tasks
  finished : ∀ d < s.dispatchCount, (s.dispatch d).continuation = .absent →
    (s.dispatch d).phase = .publishing ∨ (s.dispatch d).phase = .settled true → DoneWell s (s.dispatch d).tasks
  reentrant : ∀ d < s.dispatchCount, (s.dispatch d).continuation ≠ .absent →
    (s.dispatch d).phase = .settled true ∧ scopeOf (s.dispatch d).context ≠ none
  queued : ∀ o, ∀ d ∈ s.queue o, d < s.dispatchCount ∧ (s.dispatch d).continuation = .queued ∧
    scopeOf (s.dispatch d).context = some o
  drains : ∀ x < s.executionCount, ∀ d, (s.execution x).phase = .continuing d →
    (s.execution x).ownsContinuationScope = true ∧ d < s.dispatchCount ∧ scopeOf (s.dispatch d).context = some x ∧
      (s.dispatch d).continuation.begun = true
  behind : ∀ d < s.dispatchCount, (s.dispatch d).continuation = .publishing ∨ (s.dispatch d).continuation = .done true →
    DoneWell s (s.dispatch d).tasks
  failed : ∀ d < s.dispatchCount, (s.dispatch d).continuation = .done false → Over s (s.dispatch d).tasks
  tracked : ∀ d < s.dispatchCount, (∀ ok, (s.dispatch d).phase ≠ .settled ok) → d ∈ s.pendingDispatches

theorem DoneWell.mono {s t : CqrsState} {tasks : List SagaTask} (done : DoneWell s tasks)
    (kept : ∀ x ok, (s.execution x).phase = .done ok → (t.execution x).phase = .done ok) : DoneWell t tasks := by
  intro task mem
  obtain ⟨x, is, phase⟩ := done task mem
  exact ⟨x, is, kept x true phase⟩

theorem Over.mono {s t : CqrsState} {tasks : List SagaTask} (over_ : Over s tasks)
    (kept : ∀ x ok, (s.execution x).phase = .done ok → (t.execution x).phase = .done ok) : Over t tasks := by
  intro task mem
  obtain ⟨x, ok, is, phase⟩ := over_ task mem
  exact ⟨x, ok, is, kept x ok phase⟩

/-- Only what is tracked differs, and it still holds what has not settled. -/
theorem Flow.congr {s t : CqrsState} (flow : Flow s) (execution : t.execution = s.execution)
    (executionCount : t.executionCount = s.executionCount) (queue : t.queue = s.queue) (dispatch : t.dispatch = s.dispatch)
    (dispatchCount : t.dispatchCount = s.dispatchCount)
    (pending : ∀ d ∈ s.pendingDispatches, (∀ ok, (s.dispatch d).phase ≠ .settled ok) → d ∈ t.pendingDispatches) :
    Flow t := by
  obtain ⟨waiting, over_, reentrant, queued, drains, behind, failed, tracked⟩ := flow
  refine ⟨?_, ?_, ?_, ?_, ?_, ?_, ?_, fun d inside open_ => ?_⟩
  · rw [dispatch, dispatchCount]; exact waiting
  · simp only [dispatch, dispatchCount, DoneWell, execution]; exact over_
  · rw [dispatch, dispatchCount]; exact reentrant
  · rw [dispatch, dispatchCount, queue]; exact queued
  · rw [dispatch, dispatchCount, execution, executionCount]; exact drains
  · simp only [dispatch, dispatchCount, DoneWell, execution]; exact behind
  · simp only [dispatch, dispatchCount, Over, execution]; exact failed
  · rw [dispatch] at open_
    exact pending d (tracked d (dispatchCount ▸ inside) open_) open_

theorem Flow.setPhase {s : CqrsState} {x : Nat} {phase : ExecutionPhase} (flow : Flow s)
    (undone : ∀ ok, (s.execution x).phase ≠ .done ok)
    (drains : ∀ d, phase = .continuing d → (s.execution x).ownsContinuationScope = true ∧ d < s.dispatchCount ∧
      scopeOf (s.dispatch d).context = some x ∧ (s.dispatch d).continuation.begun = true) : Flow (s.setPhase x phase) := by
  have kept (y : Nat) (ok : Bool) (is : (s.execution y).phase = .done ok) : ((s.setPhase x phase).execution y).phase = .done ok := by
    have other : y ≠ x := by
      rintro rfl
      exact undone ok is
    have same : (s.setPhase x phase).execution y = s.execution y := Function.update_of_ne other _ _
    rw [same]
    exact is
  refine ⟨flow.waiting, fun d inside absent at_ => (flow.finished d inside absent at_).mono kept, flow.reentrant, flow.queued,
    fun y inside d is => ?_, fun d inside at_ => (flow.behind d inside at_).mono kept,
    fun d inside at_ => (flow.failed d inside at_).mono kept, flow.tracked⟩
  by_cases same : y = x
  · subst same
    have here : (s.setPhase y phase).execution y = { s.execution y with phase } := Function.update_self _ _ _
    rw [here] at is ⊢
    exact drains d is
  · have here : (s.setPhase x phase).execution y = s.execution y := Function.update_of_ne same _ _
    rw [here] at is ⊢
    exact flow.drains y inside d is

theorem Flow.setQueue {s : CqrsState} {o : Nat} {rest : List Nat} (flow : Flow s) (fewer : ∀ d ∈ rest, d ∈ s.queue o) :
    Flow (s.setQueue o rest) := by
  refine ⟨flow.waiting, flow.finished, flow.reentrant, fun o' d mem => ?_, flow.drains, flow.behind, flow.failed, flow.tracked⟩
  by_cases same : o' = o
  · subst same
    have here : (s.setQueue o' rest).queue o' = rest := Function.update_self _ _ _
    rw [here] at mem
    exact flow.queued o' d (fewer d mem)
  · have here : (s.setQueue o rest).queue o' = s.queue o' := Function.update_of_ne same _ _
    rw [here] at mem
    exact flow.queued o' d mem

/-- What a dispatch may say after a step. -/
structure FlowAt (s : CqrsState) (d : Nat) (dispatch : SagaDispatch) : Prop where
  waiting : dispatch.phase = .waiting → dispatch.continuation = .absent ∧ Executed dispatch.tasks
  finished : dispatch.continuation = .absent → dispatch.phase = .publishing ∨ dispatch.phase = .settled true →
    DoneWell s dispatch.tasks
  reentrant : dispatch.continuation ≠ .absent → dispatch.phase = .settled true ∧ scopeOf dispatch.context ≠ none
  behind : dispatch.continuation = .publishing ∨ dispatch.continuation = .done true → DoneWell s dispatch.tasks
  failed : dispatch.continuation = .done false → Over s dispatch.tasks
  tracked : (∀ ok, dispatch.phase ≠ .settled ok) → d ∈ s.pendingDispatches

theorem Flow.at {s : CqrsState} (flow : Flow s) {d : Nat} (inside : d < s.dispatchCount) : FlowAt s d (s.dispatch d) :=
  ⟨flow.waiting d inside, flow.finished d inside, flow.reentrant d inside, flow.behind d inside, flow.failed d inside,
    flow.tracked d inside⟩

theorem Flow.modifyDispatch {s : CqrsState} {d : Nat} {f : SagaDispatch → SagaDispatch} (flow : Flow s)
    (here : FlowAt s d (f (s.dispatch d))) (context : (f (s.dispatch d)).context = (s.dispatch d).context)
    (queued : (s.dispatch d).continuation = .queued → (f (s.dispatch d)).continuation = .queued)
    (begun : (s.dispatch d).continuation.begun = true → (f (s.dispatch d)).continuation.begun = true) :
    Flow (s.modifyDispatch d f) := by
  have changed : (s.modifyDispatch d f).dispatch d = f (s.dispatch d) := Function.update_self _ _ _
  have others {c : Nat} (ne : c ≠ d) : (s.modifyDispatch d f).dispatch c = s.dispatch c := Function.update_of_ne ne _ _
  refine ⟨fun c inside => ?_, fun c inside => ?_, fun c inside => ?_, fun o c mem => ?_, fun x inside c is => ?_,
    fun c inside => ?_, fun c inside => ?_, fun c inside => ?_⟩
  · by_cases same : c = d
    · subst same; rw [changed]; exact here.waiting
    · rw [others same]; exact flow.waiting c inside
  · by_cases same : c = d
    · subst same; rw [changed]; exact here.finished
    · rw [others same]; exact flow.finished c inside
  · by_cases same : c = d
    · subst same; rw [changed]; exact here.reentrant
    · rw [others same]; exact flow.reentrant c inside
  · obtain ⟨inside, is, scope⟩ := flow.queued o c mem
    by_cases same : c = d
    · subst same; rw [changed, context]; exact ⟨inside, queued is, scope⟩
    · rw [others same]; exact ⟨inside, is, scope⟩
  · obtain ⟨owns, below, scope, on⟩ := flow.drains x inside c is
    by_cases same : c = d
    · subst same; rw [changed, context]; exact ⟨owns, below, scope, begun on⟩
    · rw [others same]; exact ⟨owns, below, scope, on⟩
  · by_cases same : c = d
    · subst same; rw [changed]; exact here.behind
    · rw [others same]; exact flow.behind c inside
  · by_cases same : c = d
    · subst same; rw [changed]; exact here.failed
    · rw [others same]; exact flow.failed c inside
  · by_cases same : c = d
    · subst same; rw [changed]; exact here.tracked
    · rw [others same]; exact flow.tracked c inside

theorem Flow.addDispatch {s : CqrsState} (flow : Flow s) (event : Nat) (context : Option CqrsDispatchContext)
    (publish : Option (Nat × Nat)) : Flow (addDispatch s event context publish) := by
  generalize added : Fluo.Cqrs.addDispatch s event context publish = t
  have old {d : Nat} (inside : d < s.dispatchCount) : t.dispatch d = s.dispatch d := by
    rw [← added]
    exact Function.update_of_ne (Nat.ne_of_lt inside) _ _
  have new : t.dispatch s.dispatchCount = ⟨event, context, publish, [], .discovering, .absent⟩ := by
    rw [← added]
    exact Function.update_self _ _ _
  have rest : t.execution = s.execution ∧ t.executionCount = s.executionCount ∧ t.queue = s.queue ∧
      t.dispatchCount = s.dispatchCount + 1 ∧ t.pendingDispatches = s.pendingDispatches ++ [s.dispatchCount] := by
    rw [← added]
    exact ⟨rfl, rfl, rfl, rfl, rfl⟩
  obtain ⟨execution, executionCount, queue, dispatchCount, pending⟩ := rest
  have kept (y : Nat) (ok : Bool) (is : (s.execution y).phase = .done ok) : (t.execution y).phase = .done ok := by
    rw [execution]
    exact is
  have at_ (d : Nat) (inside : d < t.dispatchCount) : FlowAt t d (t.dispatch d) := by
    rcases Nat.lt_succ_iff_lt_or_eq.mp (dispatchCount ▸ inside) with below | rfl
    · obtain ⟨waiting, over_, reentrant, behind, failed, tracked⟩ := flow.at below
      rw [old below]
      exact ⟨waiting, fun absent is => (over_ absent is).mono kept, reentrant, fun is => (behind is).mono kept,
        fun is => (failed is).mono kept, fun open_ => pending ▸ List.mem_append_left _ (tracked open_)⟩
    · rw [new]
      exact ⟨nofun, nofun, fun present => absurd rfl present, nofun, nofun,
        fun _ => pending ▸ List.mem_append_right _ (List.mem_singleton_self _)⟩
  refine ⟨fun d inside => (at_ d inside).waiting, fun d inside => (at_ d inside).finished,
    fun d inside => (at_ d inside).reentrant, fun o d mem => ?_, fun x inside d is => ?_, fun d inside => (at_ d inside).behind,
    fun d inside => (at_ d inside).failed, fun d inside => (at_ d inside).tracked⟩
  · rw [queue] at mem
    obtain ⟨inside, is, scope⟩ := flow.queued o d mem
    rw [old inside]
    exact ⟨by omega, is, scope⟩
  · rw [execution] at is ⊢
    obtain ⟨owns, below, scope, on⟩ := flow.drains x (executionCount ▸ inside) d is
    rw [old below]
    exact ⟨owns, by omega, scope, on⟩

theorem Flow.admitted {s t : CqrsState} (flow : Flow s) (old : ∀ x < s.executionCount, t.execution x = s.execution x)
    (links : ∀ d < s.dispatchCount, ∀ task ∈ (s.dispatch d).tasks, ∀ x, task.execution = some x → x < s.executionCount)
    (new : ∀ x, s.executionCount ≤ x → x < t.executionCount → (t.execution x).phase = .waiting)
    (queue : t.queue = s.queue) (dispatch : t.dispatch = s.dispatch) (dispatchCount : t.dispatchCount = s.dispatchCount)
    (pending : t.pendingDispatches = s.pendingDispatches) : Flow t := by
  have done {d : Nat} (inside : d < s.dispatchCount) (is : DoneWell s (s.dispatch d).tasks) :
      DoneWell t (s.dispatch d).tasks := by
    intro task mem
    obtain ⟨x, at_, phase⟩ := is task mem
    exact ⟨x, at_, by rw [old x (links d inside task mem x at_)]; exact phase⟩
  have ended {d : Nat} (inside : d < s.dispatchCount) (is : Over s (s.dispatch d).tasks) : Over t (s.dispatch d).tasks := by
    intro task mem
    obtain ⟨x, ok, at_, phase⟩ := is task mem
    exact ⟨x, ok, at_, by rw [old x (links d inside task mem x at_)]; exact phase⟩
  refine ⟨?_, fun d inside absent is => ?_, ?_, ?_, fun x inside d is => ?_, fun d inside is => ?_, fun d inside is => ?_, ?_⟩
  · rw [dispatch, dispatchCount]; exact flow.waiting
  · rw [dispatch] at absent is ⊢
    exact done (dispatchCount ▸ inside) (flow.finished d (dispatchCount ▸ inside) absent is)
  · rw [dispatch, dispatchCount]; exact flow.reentrant
  · rw [dispatch, dispatchCount, queue]; exact flow.queued
  · by_cases before : x < s.executionCount
    · rw [old x before] at is ⊢
      rw [dispatch, dispatchCount]
      exact flow.drains x before d is
    · rw [new x (Nat.le_of_not_lt before) inside] at is
      cases is
  · rw [dispatch] at is ⊢
    exact done (dispatchCount ▸ inside) (flow.behind d (dispatchCount ▸ inside) is)
  · rw [dispatch] at is ⊢
    exact ended (dispatchCount ▸ inside) (flow.failed d (dispatchCount ▸ inside) is)
  · rw [dispatch, dispatchCount, pending]; exact flow.tracked

end Fluo.Cqrs
