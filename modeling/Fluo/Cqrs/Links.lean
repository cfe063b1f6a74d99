import Fluo.Cqrs.Outcome

/-!
# Links

How pipelines, dispatches, tasks and executions belong together, in every state
that can be reached.
-/

namespace Fluo.Cqrs

open Fluo.Run

/-! ## Contexts -/

def scopeOf (context : Option CqrsDispatchContext) : Option Nat := context.bind (·.sagaContinuationScope)

def routesOf (context : Option CqrsDispatchContext) : List SagaDescriptor :=
  ((context.bind (·.sagaTopology)).map (·.activeRoutes)).getD []

theorem enterSagaTopology_some {context : Option CqrsDispatchContext} {descriptor : SagaDescriptor} {scope : Nat}
    {topology : SagaTopologyEntry} (h : enterSagaTopology context descriptor scope = some topology) :
    topology.continuationScope = (scopeOf context).getD scope ∧
      topology.ownsContinuationScope = (scopeOf context).isNone ∧
      topology.reentrantToken = (routesOf context).any (fun route => route.token = descriptor.token) ∧
      scopeOf (some topology.context) = some topology.continuationScope ∧
      routesOf (some topology.context) = routesOf context ++ [descriptor] := by
  unfold enterSagaTopology at h
  dsimp only at h
  split at h
  · cases h
  · split at h
    · cases h
    · cases h
      exact ⟨rfl, rfl, rfl, rfl, rfl⟩

theorem enterSagaRoutes_mem {context : Option CqrsDispatchContext} {descriptors : List SagaDescriptor} {scope : Nat}
    {entries : List (SagaDescriptor × SagaTopologyEntry)} (h : enterSagaRoutes context descriptors scope = some entries) :
    entries.map Prod.fst = descriptors ∧ ∀ entry ∈ entries, ∃ own, enterSagaTopology context entry.1 own = some entry.2 := by
  induction descriptors generalizing scope entries with
  | nil =>
    cases h
    exact ⟨rfl, nofun⟩
  | cons descriptor rest ih =>
    obtain ⟨topology, entered, h⟩ := Option.bind_eq_some_iff.mp h
    obtain ⟨others, more, h⟩ := Option.bind_eq_some_iff.mp h
    cases h
    obtain ⟨fsts, all⟩ := ih more
    refine ⟨by rw [List.map_cons, fsts], fun entry mem => ?_⟩
    rcases List.mem_cons.mp mem with rfl | behind
    · exact ⟨scope, entered⟩
    · exact all entry behind

/-- A context that has active routes has a scope, and a scope is that of an execution that owns it. -/
def ValidContext (s : CqrsState) (context : Option CqrsDispatchContext) : Prop :=
  scopeOf context = none ∧ routesOf context = [] ∨
    ∃ o < s.executionCount, scopeOf context = some o ∧ (s.execution o).ownsContinuationScope = true ∧
      (s.execution o).continuationScope = o

theorem ValidContext.mono {s t : CqrsState} {context : Option CqrsDispatchContext} (valid : ValidContext s context)
    (grows : s.executionCount ≤ t.executionCount)
    (old : ∀ x < s.executionCount, (t.execution x).ownsContinuationScope = (s.execution x).ownsContinuationScope ∧
      (t.execution x).continuationScope = (s.execution x).continuationScope) : ValidContext t context := by
  rcases valid with none | ⟨o, inside, scope, owns, own⟩
  · exact .inl none
  · obtain ⟨owns', own'⟩ := old o inside
    exact .inr ⟨o, Nat.lt_of_lt_of_le inside grows, scope, owns'.trans owns, own'.trans own⟩

/-! ## Links -/

structure TaskExecution (s : CqrsState) (d : Nat) (task : SagaTask) (x : Nat) : Prop where
  inside : x < s.executionCount
  dispatch : (s.execution x).dispatch = d
  descriptor : (s.execution x).descriptor = task.descriptor
  context : (s.execution x).context = task.topology.context
  scope : (s.execution x).continuationScope = task.topology.continuationScope
  owns : (s.execution x).ownsContinuationScope = task.topology.ownsContinuationScope

theorem TaskExecution.mono {s t : CqrsState} {d : Nat} {task : SagaTask} {x : Nat} (here : TaskExecution s d task x)
    (grows : s.executionCount ≤ t.executionCount) (same : t.execution x = s.execution x) : TaskExecution t d task x := by
  obtain ⟨inside, dispatch, descriptor, context, scope, owns⟩ := here
  refine ⟨Nat.lt_of_lt_of_le inside grows, ?_, ?_, ?_, ?_, ?_⟩ <;> rw [same] <;> assumption

def SagaTask.entry (task : SagaTask) : SagaDescriptor × SagaTopologyEntry := (task.descriptor, task.topology)

def CalledBy (s : CqrsState) (p : Nat) : Caller → Prop
  | .external => True
  | .handler q => q < p ∧ scopeOf (some (s.pipeline p).context) = scopeOf (some (s.pipeline q).context) ∧
      routesOf (some (s.pipeline p).context) = routesOf (some (s.pipeline q).context)
  | .saga x => x < s.executionCount ∧ scopeOf (some (s.pipeline p).context) = scopeOf (some (s.execution x).context) ∧
      routesOf (some (s.pipeline p).context) = routesOf (some (s.execution x).context)

structure Links (graph : CqrsGraph) (s : CqrsState) : Prop where
  executions : ∀ x < s.executionCount, (s.execution x).dispatch < s.dispatchCount ∧
    (s.execution x).event = (s.dispatch (s.execution x).dispatch).event ∧
    ((s.execution x).ownsContinuationScope = true → (s.execution x).continuationScope = x) ∧
    ∃ task ∈ (s.dispatch (s.execution x).dispatch).tasks, task.execution = some x
  tasks : ∀ d < s.dispatchCount, ∀ task ∈ (s.dispatch d).tasks, ∀ x, task.execution = some x → TaskExecution s d task x
  entered : ∀ d < s.dispatchCount, (s.dispatch d).tasks = [] ∨
    ∃ first, enterSagaRoutes (s.dispatch d).context (matchSagaDescriptors graph (s.dispatch d).event) first =
      some ((s.dispatch d).tasks.map SagaTask.entry)
  fresh : ∀ d < s.dispatchCount, (s.dispatch d).phase = .discovering → (s.dispatch d).tasks = []
  /-- Only a dispatch inside a scope leaves tasks to its continuation. -/
  deferred : ∀ d < s.dispatchCount, ∀ task ∈ (s.dispatch d).tasks, task.execution = none →
    scopeOf (s.dispatch d).context ≠ none
  dispatches : ∀ d < s.dispatchCount, ValidContext s (s.dispatch d).context
  pipelines : ∀ p < s.pipelineCount, ValidContext s (some (s.pipeline p).context) ∧ CalledBy s p (s.pipeline p).caller

theorem Links.task {graph : CqrsGraph} {s : CqrsState} (links : Links graph s) {d : Nat} (inside : d < s.dispatchCount)
    {task : SagaTask} (mem : task ∈ (s.dispatch d).tasks) :
    ∃ own, enterSagaTopology (s.dispatch d).context task.descriptor own = some task.topology := by
  rcases links.entered d inside with none | ⟨first, entered⟩
  · rw [none] at mem
    cases mem
  · exact (enterSagaRoutes_mem entered).2 task.entry (List.mem_map_of_mem mem)

/-- An execution owns its scope just if its dispatch has none, and its context is valid. -/
theorem Links.execution {graph : CqrsGraph} {s : CqrsState} (links : Links graph s) {x : Nat}
    (inside : x < s.executionCount) :
    (s.execution x).ownsContinuationScope = (scopeOf (s.dispatch (s.execution x).dispatch).context).isNone ∧
      scopeOf (some (s.execution x).context) = some (s.execution x).continuationScope ∧
      routesOf (some (s.execution x).context) =
        routesOf (s.dispatch (s.execution x).dispatch).context ++ [(s.execution x).descriptor] ∧
      ((s.execution x).ownsContinuationScope = false →
        scopeOf (s.dispatch (s.execution x).dispatch).context = some (s.execution x).continuationScope) ∧
      ValidContext s (some (s.execution x).context) := by
  obtain ⟨below, -, owner, task, mem, is⟩ := links.executions x inside
  obtain ⟨own, entered⟩ := links.task below mem
  have here := links.tasks _ below task mem x is
  obtain ⟨scope, owns, -, context, routes⟩ := enterSagaTopology_some entered
  rw [← here.owns] at owns
  rw [← here.scope] at scope context
  rw [← here.context] at context routes
  rw [← here.descriptor] at routes
  have foreign (not : (s.execution x).ownsContinuationScope = false) :
      scopeOf (s.dispatch (s.execution x).dispatch).context = some (s.execution x).continuationScope := by
    rw [not] at owns
    obtain ⟨o, is⟩ := Option.ne_none_iff_exists'.mp (Option.isSome_iff_ne_none.mp (by simpa using owns.symm))
    rw [is] at scope ⊢
    exact congrArg some scope.symm
  refine ⟨owns, context, routes, foreign, ?_⟩
  cases mine : (s.execution x).ownsContinuationScope with
  | true => exact .inr ⟨x, inside, context.trans (congrArg some (owner mine)), mine, owner mine⟩
  | false =>
    rcases links.dispatches _ below with ⟨none, -⟩ | ⟨o, inside', is, owns', own'⟩
    · rw [foreign mine] at none
      cases none
    · rw [foreign mine] at is
      exact .inr ⟨o, inside', context.trans is, owns', own'⟩

theorem Links.passed {graph : CqrsGraph} {s : CqrsState} (links : Links graph s) {caller : Caller}
    {context : Option CqrsDispatchContext} (passed : contextOf s caller = some context) : ValidContext s context := by
  cases caller with
  | external =>
    cases passed
    exact .inl ⟨rfl, rfl⟩
  | handler q =>
    obtain ⟨able, is⟩ := Option.ite_none_right_eq_some.mp passed
    cases is
    exact (links.pipelines q able.1).1
  | saga x =>
    obtain ⟨able, is⟩ := Option.ite_none_right_eq_some.mp passed
    cases is
    exact (links.execution able.1).2.2.2.2

/-! ## What keeps the links -/

/-- A task as its dispatch has entered it. -/
def SagaTask.link (task : SagaTask) : SagaDescriptor × SagaTopologyEntry × Option Nat :=
  (task.descriptor, task.topology, task.execution)

structure Advance (s t : CqrsState) : Prop where
  executionCount : t.executionCount = s.executionCount
  execution : ∀ x, ∃ phase, t.execution x = { s.execution x with phase }
  dispatchCount : t.dispatchCount = s.dispatchCount
  dispatch : ∀ d, (t.dispatch d).event = (s.dispatch d).event ∧ (t.dispatch d).context = (s.dispatch d).context ∧
    (t.dispatch d).tasks.map SagaTask.link = (s.dispatch d).tasks.map SagaTask.link ∧
    ((t.dispatch d).phase = .discovering → (s.dispatch d).phase = .discovering)
  pipelineCount : t.pipelineCount = s.pipelineCount
  pipeline : ∀ p, (t.pipeline p).context = (s.pipeline p).context ∧ (t.pipeline p).caller = (s.pipeline p).caller

theorem Advance.of_eq {s t : CqrsState} (executionCount : t.executionCount = s.executionCount)
    (execution : t.execution = s.execution) (dispatchCount : t.dispatchCount = s.dispatchCount)
    (dispatch : t.dispatch = s.dispatch) (pipelineCount : t.pipelineCount = s.pipelineCount)
    (pipeline : t.pipeline = s.pipeline) : Advance s t := by
  refine ⟨executionCount, fun x => ⟨(s.execution x).phase, ?_⟩, dispatchCount, fun d => ?_, pipelineCount, fun p => ?_⟩
  · rw [execution]
  · rw [dispatch]
    exact ⟨rfl, rfl, rfl, id⟩
  · rw [pipeline]
    exact ⟨rfl, rfl⟩

theorem Advance.trans {s t u : CqrsState} (first : Advance s t) (second : Advance t u) : Advance s u := by
  refine ⟨second.executionCount.trans first.executionCount, fun x => ?_, second.dispatchCount.trans first.dispatchCount,
    fun d => ?_, second.pipelineCount.trans first.pipelineCount, fun p => ?_⟩
  · obtain ⟨phase, is⟩ := first.execution x
    obtain ⟨phase', is'⟩ := second.execution x
    exact ⟨phase', by rw [is', is]⟩
  · obtain ⟨event, context, tasks, fresh⟩ := first.dispatch d
    obtain ⟨event', context', tasks', fresh'⟩ := second.dispatch d
    exact ⟨event'.trans event, context'.trans context, tasks'.trans tasks, fun is => fresh (fresh' is)⟩
  · obtain ⟨context, caller⟩ := first.pipeline p
    obtain ⟨context', caller'⟩ := second.pipeline p
    exact ⟨context'.trans context, caller'.trans caller⟩

theorem Advance.observe {s t : CqrsState} (advance : Advance s t) (o : Observation) : Advance s (t.observe o) :=
  advance.trans (.of_eq rfl rfl rfl rfl rfl rfl)

theorem advance_setPhase (s : CqrsState) (x : Nat) (phase : ExecutionPhase) : Advance s (s.setPhase x phase) := by
  refine ⟨rfl, fun y => ?_, rfl, fun d => ⟨rfl, rfl, rfl, id⟩, rfl, fun p => ⟨rfl, rfl⟩⟩
  by_cases same : y = x
  · subst same
    exact ⟨phase, Function.update_self _ _ _⟩
  · exact ⟨(s.execution y).phase, Function.update_of_ne same _ _⟩

theorem advance_modifyDispatch {s : CqrsState} {d : Nat} {f : SagaDispatch → SagaDispatch}
    (event : (f (s.dispatch d)).event = (s.dispatch d).event) (context : (f (s.dispatch d)).context = (s.dispatch d).context)
    (tasks : (f (s.dispatch d)).tasks.map SagaTask.link = (s.dispatch d).tasks.map SagaTask.link)
    (fresh : (f (s.dispatch d)).phase = .discovering → (s.dispatch d).phase = .discovering) :
    Advance s (s.modifyDispatch d f) := by
  refine ⟨rfl, fun x => ⟨_, rfl⟩, rfl, fun c => ?_, rfl, fun p => ⟨rfl, rfl⟩⟩
  by_cases same : c = d
  · subst same
    have here : (s.modifyDispatch c f).dispatch c = f (s.dispatch c) := Function.update_self _ _ _
    rw [here]
    exact ⟨event, context, tasks, fresh⟩
  · have here : (s.modifyDispatch d f).dispatch c = s.dispatch c := Function.update_of_ne same _ _
    rw [here]
    exact ⟨rfl, rfl, rfl, id⟩

theorem advance_modifyPipeline {s : CqrsState} {p : Nat} {f : PublishPipeline → PublishPipeline}
    (context : (f (s.pipeline p)).context = (s.pipeline p).context)
    (caller : (f (s.pipeline p)).caller = (s.pipeline p).caller) : Advance s (s.modifyPipeline p f) := by
  refine ⟨rfl, fun x => ⟨_, rfl⟩, rfl, fun d => ⟨rfl, rfl, rfl, id⟩, rfl, fun q => ?_⟩
  by_cases same : q = p
  · subst same
    have here : (s.modifyPipeline q f).pipeline q = f (s.pipeline q) := Function.update_self _ _ _
    rw [here]
    exact ⟨context, caller⟩
  · have here : (s.modifyPipeline p f).pipeline q = s.pipeline q := Function.update_of_ne same _ _
    rw [here]
    exact ⟨rfl, rfl⟩

theorem advance_afterSagas (s : CqrsState) (d : Nat) : Advance s (afterSagas s d) := by
  unfold afterSagas
  split
  · exact Advance.observe (advance_modifyDispatch rfl rfl rfl (by nofun)) _
  · exact advance_modifyDispatch rfl rfl rfl (by nofun)

theorem Advance.clear {s t : CqrsState} (advance : Advance s t) : Advance s (clearStoppedSagaGraphIfQuiescent t) := by
  unfold clearStoppedSagaGraphIfQuiescent
  split
  · exact advance
  · exact advance.trans (.of_eq rfl rfl rfl rfl rfl rfl)

theorem CalledBy.mono {s t : CqrsState} {p : Nat} {caller : Caller} (called : CalledBy s p caller)
    (known : p < s.pipelineCount) (grows : s.executionCount ≤ t.executionCount)
    (pipeline : ∀ q < s.pipelineCount, (t.pipeline q).context = (s.pipeline q).context)
    (execution : ∀ x < s.executionCount, (t.execution x).context = (s.execution x).context) : CalledBy t p caller := by
  cases caller with
  | external => trivial
  | handler q =>
    obtain ⟨before, same⟩ := called
    refine ⟨before, ?_⟩
    rw [pipeline p known, pipeline q (Nat.lt_trans before known)]
    exact same
  | saga x =>
    obtain ⟨before, same⟩ := called
    refine ⟨Nat.lt_of_lt_of_le before grows, ?_⟩
    rw [pipeline p known, execution x before]
    exact same

theorem exists_link {tasks tasks' : List SagaTask} (same : tasks'.map SagaTask.link = tasks.map SagaTask.link)
    {task : SagaTask} (mem : task ∈ tasks') : ∃ task' ∈ tasks, task'.link = task.link := by
  have there : task.link ∈ tasks.map SagaTask.link := same ▸ List.mem_map_of_mem mem
  exact List.mem_map.mp there

theorem Links.advance {graph : CqrsGraph} {s t : CqrsState} (links : Links graph s) (advance : Advance s t) :
    Links graph t := by
  obtain ⟨executionCount, execution, dispatchCount, dispatch, pipelineCount, pipeline⟩ := advance
  have valid {context : Option CqrsDispatchContext} (is : ValidContext s context) : ValidContext t context := by
    refine is.mono (Nat.le_of_eq executionCount.symm) fun x _ => ?_
    obtain ⟨phase, same⟩ := execution x
    rw [same]
    exact ⟨rfl, rfl⟩
  refine ⟨fun x inside => ?_, fun d inside task mem x is => ?_, fun d inside => ?_, fun d inside is => ?_,
    fun d inside task mem is => ?_, fun d inside => ?_, fun p inside => ?_⟩
  · rw [executionCount] at inside
    obtain ⟨below, event, own, task, mem, is⟩ := links.executions x inside
    obtain ⟨phase, same⟩ := execution x
    obtain ⟨event', -, links', -⟩ := dispatch (s.execution x).dispatch
    obtain ⟨task', mem', link⟩ := exists_link links'.symm mem
    rw [same, dispatchCount]
    exact ⟨below, event.trans event'.symm, own, task', mem', (congrArg (·.2.2) link).trans is⟩
  · rw [dispatchCount] at inside
    obtain ⟨task', mem', link⟩ := exists_link (dispatch d).2.2.1 mem
    have same := Prod.mk.inj link
    have same' := Prod.mk.inj same.2
    obtain ⟨inside', dispatch', descriptor, context, scope, owns⟩ := links.tasks d inside task' mem' x (same'.2.trans is)
    obtain ⟨phase, moved⟩ := execution x
    refine ⟨executionCount ▸ inside', ?_, ?_, ?_, ?_, ?_⟩
    · rw [moved]; exact dispatch'
    · rw [moved]; exact descriptor.trans same.1
    · rw [moved]; exact context.trans (congrArg _ same'.1)
    · rw [moved]; exact scope.trans (congrArg _ same'.1)
    · rw [moved]; exact owns.trans (congrArg _ same'.1)
  · rw [dispatchCount] at inside
    obtain ⟨event, context, links', -⟩ := dispatch d
    have entries : (t.dispatch d).tasks.map SagaTask.entry = (s.dispatch d).tasks.map SagaTask.entry := by
      have prefixes := congrArg (List.map fun link : SagaDescriptor × SagaTopologyEntry × Option Nat => (link.1, link.2.1)) links'
      rw [List.map_map, List.map_map] at prefixes
      exact prefixes
    rw [event, context, entries]
    rcases links.entered d inside with none | entered
    · exact .inl (List.map_eq_nil_iff.mp (entries.trans (by rw [none]; rfl)))
    · exact .inr entered
  · obtain ⟨-, -, links', fresh⟩ := dispatch d
    rw [links.fresh d (dispatchCount ▸ inside) (fresh is)] at links'
    exact List.map_eq_nil_iff.mp links'
  · obtain ⟨task', mem', link⟩ := exists_link (dispatch d).2.2.1 mem
    rw [(dispatch d).2.1]
    exact links.deferred d (dispatchCount ▸ inside) task' mem' ((congrArg (·.2.2) link).trans is)
  · rw [dispatchCount] at inside
    rw [(dispatch d).2.1]
    exact valid (links.dispatches d inside)
  · rw [pipelineCount] at inside
    obtain ⟨context, caller⟩ := pipeline p
    obtain ⟨valid', called⟩ := links.pipelines p inside
    rw [context, caller]
    refine ⟨valid valid', called.mono inside (Nat.le_of_eq executionCount.symm) (fun q _ => (pipeline q).1) fun x _ => ?_⟩
    obtain ⟨phase, same⟩ := execution x
    rw [same]

/-! ## What adds links -/

theorem Links.addDispatch {graph : CqrsGraph} {s : CqrsState} {context : Option CqrsDispatchContext} (links : Links graph s)
    (valid : ValidContext s context) (event : Nat) (publish : Option (Nat × Nat)) :
    Links graph (addDispatch s event context publish) := by
  have old {d : Nat} (inside : d < s.dispatchCount) :
      (Fluo.Cqrs.addDispatch s event context publish).dispatch d = s.dispatch d :=
    Function.update_of_ne (Nat.ne_of_lt inside) _ _
  have new : (Fluo.Cqrs.addDispatch s event context publish).dispatch s.dispatchCount =
      ⟨event, context, publish, [], .discovering, .absent⟩ := Function.update_self _ _ _
  refine ⟨fun x inside => ?_, fun d inside task mem x is => ?_, fun d inside => ?_, fun d inside => ?_,
    fun d inside task mem => ?_, fun d inside => ?_, links.pipelines⟩
  · obtain ⟨below, event', own, task⟩ := links.executions x inside
    have execution : (Fluo.Cqrs.addDispatch s event context publish).execution = s.execution := rfl
    rw [execution, old below]
    exact ⟨Nat.lt_succ_of_lt below, event', own, task⟩
  · rcases Nat.lt_succ_iff_lt_or_eq.mp inside with below | rfl
    · rw [old below] at mem
      exact (links.tasks d below task mem x is).mono (Nat.le_refl _) rfl
    · rw [new] at mem
      cases mem
  · rcases Nat.lt_succ_iff_lt_or_eq.mp inside with below | rfl
    · rw [old below]
      exact links.entered d below
    · rw [new]
      exact .inl rfl
  · rcases Nat.lt_succ_iff_lt_or_eq.mp inside with below | rfl
    · rw [old below]
      exact links.fresh d below
    · rw [new]
      exact fun _ => rfl
  · rcases Nat.lt_succ_iff_lt_or_eq.mp inside with below | rfl
    · rw [old below] at mem ⊢
      exact links.deferred d below task mem
    · rw [new] at mem
      cases mem
  · rcases Nat.lt_succ_iff_lt_or_eq.mp inside with below | rfl
    · rw [old below]
      exact links.dispatches d below
    · rw [new]
      exact valid

theorem createPublishContext_same (context : Option CqrsDispatchContext) (token : Nat) :
    scopeOf (some (createPublishContext context token).1) = scopeOf context ∧
      routesOf (some (createPublishContext context token).1) = routesOf context := by
  unfold createPublishContext
  split
  · exact ⟨rfl, rfl⟩
  · exact ⟨rfl, rfl⟩

theorem Links.addPipeline {graph : CqrsGraph} {s : CqrsState} {caller : Caller} {context : Option CqrsDispatchContext}
    (links : Links graph s) (passed : contextOf s caller = some context) (events : List Nat) (awaited : Bool) :
    Links graph (addPipeline s events context caller awaited) := by
  obtain ⟨scope, routes⟩ := createPublishContext_same context s.pipelineCount
  generalize added : Fluo.Cqrs.addPipeline s events context caller awaited = t
  have old {p : Nat} (inside : p < s.pipelineCount) : t.pipeline p = s.pipeline p := by
    rw [← added]
    exact Function.update_of_ne (Nat.ne_of_lt inside) _ _
  have new : (t.pipeline s.pipelineCount).context = (createPublishContext context s.pipelineCount).1 ∧
      (t.pipeline s.pipelineCount).caller = caller := by
    rw [← added, Fluo.Cqrs.addPipeline]
    simp
  have rest : t.execution = s.execution ∧ t.executionCount = s.executionCount ∧ t.dispatch = s.dispatch ∧
      t.dispatchCount = s.dispatchCount ∧ t.pipelineCount = s.pipelineCount + 1 := by
    rw [← added]
    exact ⟨rfl, rfl, rfl, rfl, rfl⟩
  obtain ⟨execution, executionCount, dispatch, dispatchCount, pipelineCount⟩ := rest
  have valid {c : Option CqrsDispatchContext} (is : ValidContext s c) : ValidContext t c :=
    is.mono (Nat.le_of_eq executionCount.symm) fun x _ => by rw [execution]; exact ⟨rfl, rfl⟩
  refine ⟨?_, fun d inside task mem x is => ?_, ?_, ?_, ?_, fun d inside => ?_, fun p inside => ?_⟩
  · rw [execution, executionCount, dispatch, dispatchCount]
    exact links.executions
  · rw [dispatch] at mem
    exact (links.tasks d (dispatchCount ▸ inside) task mem x is).mono (Nat.le_of_eq executionCount.symm) (by rw [execution])
  · rw [dispatch, dispatchCount]
    exact links.entered
  · rw [dispatch, dispatchCount]
    exact links.fresh
  · rw [dispatch, dispatchCount]
    exact links.deferred
  · rw [dispatch]
    exact valid (links.dispatches d (dispatchCount ▸ inside))
  · rcases Nat.lt_succ_iff_lt_or_eq.mp (pipelineCount ▸ inside) with below | rfl
    · obtain ⟨valid', called⟩ := links.pipelines p below
      rw [old below]
      exact ⟨valid valid', called.mono below (Nat.le_of_eq executionCount.symm) (fun q inside => by rw [old inside])
        fun x _ => by rw [execution]⟩
    · rw [new.1, new.2]
      refine ⟨?_, ?_⟩
      · have is := valid (links.passed passed)
        rw [ValidContext, scope, routes]
        exact is
      · cases caller with
        | external => trivial
        | handler q =>
          obtain ⟨able, is⟩ := Option.ite_none_right_eq_some.mp passed
          cases is
          rw [CalledBy, new.1, scope, routes, old able.1]
          exact ⟨able.1, rfl, rfl⟩
        | saga x =>
          obtain ⟨able, is⟩ := Option.ite_none_right_eq_some.mp passed
          cases is
          rw [CalledBy, new.1, scope, routes, execution, executionCount]
          exact ⟨able.1, rfl, rfl⟩

/-! ## Admissions -/

structure Admitted (immediate : SagaTopologyEntry → Bool) (event d : Nat)
    (entries : List (SagaDescriptor × SagaTopologyEntry)) (s t : CqrsState) (tasks : List SagaTask) : Prop where
  frame : ∃ execution executionCount executionChains, t = { s with execution, executionCount, executionChains }
  grows : s.executionCount ≤ t.executionCount
  old : ∀ x < s.executionCount, t.execution x = s.execution x
  entries : tasks.map SagaTask.entry = entries
  idle : ∀ task ∈ tasks, task.started = false
  executed : ∀ task ∈ tasks, ∀ x, task.execution = some x → s.executionCount ≤ x ∧ TaskExecution t d task x ∧
    (t.execution x).event = event ∧ (t.execution x).phase = .waiting
  admitted : ∀ task ∈ tasks, task.execution.isSome = immediate task.topology
  onto : ∀ x, s.executionCount ≤ x → x < t.executionCount → ∃ task ∈ tasks, task.execution = some x

theorem admitEntries_admitted {immediate : SagaTopologyEntry → Bool} {event d : Nat}
    {entries : List (SagaDescriptor × SagaTopologyEntry)} {s t : CqrsState} {tasks : List SagaTask}
    (h : admitEntries immediate event d entries s = (t, tasks)) : Admitted immediate event d entries s t tasks := by
  induction entries generalizing s t tasks with
  | nil =>
    cases h
    exact ⟨⟨_, _, _, rfl⟩, Nat.le_refl _, fun _ _ => rfl, rfl, nofun, nofun, nofun,
      fun x above below => absurd below (Nat.not_lt.mpr above)⟩
  | cons entry rest ih =>
    obtain ⟨descriptor, topology⟩ := entry
    rw [admitEntries] at h
    split at h
    · next now =>
      cases admits : admitEntries immediate event d rest (dispatchWithOrdering s descriptor event topology d) with
      | mk u more =>
        rw [admits] at h
        cases h
        have rest := ih admits
        have before (x : Nat) (inside : x < s.executionCount) :
            (dispatchWithOrdering s descriptor event topology d).execution x = s.execution x :=
          Function.update_of_ne (Nat.ne_of_lt inside) _ _
        have here : t.execution s.executionCount = ⟨descriptor, event, topology.context, topology.continuationScope,
            topology.ownsContinuationScope, s.executionChains descriptor.token, d, .waiting⟩ :=
          (rest.old _ (Nat.lt_succ_self _)).trans (Function.update_self _ _ _)
        have inside : s.executionCount < t.executionCount := rest.grows
        obtain ⟨execution, executionCount, executionChains, is⟩ := rest.frame
        refine ⟨⟨execution, executionCount, executionChains, is⟩, Nat.le_of_lt inside, fun x below => ?_,
          by rw [List.map_cons, rest.entries]; rfl, fun task mem => ?_, fun task mem x at_ => ?_, fun task mem => ?_,
          fun x above below => ?_⟩
        · exact (rest.old x (Nat.lt_succ_of_lt below)).trans (before x below)
        · rcases List.mem_cons.mp mem with rfl | behind
          · rfl
          · exact rest.idle task behind
        · rcases List.mem_cons.mp mem with rfl | behind
          · cases at_
            refine ⟨Nat.le_refl _, ⟨inside, ?_, ?_, ?_, ?_, ?_⟩, ?_, ?_⟩ <;> rw [here]
          · obtain ⟨above, executed⟩ := rest.executed task behind x at_
            exact ⟨Nat.le_of_lt above, executed⟩
        · rcases List.mem_cons.mp mem with rfl | behind
          · exact now.symm
          · exact rest.admitted task behind
        · rcases Nat.lt_or_eq_of_le above with above | rfl
          · obtain ⟨task, mem, at_⟩ := rest.onto x above below
            exact ⟨task, List.mem_cons_of_mem _ mem, at_⟩
          · exact ⟨_, List.mem_cons_self, rfl⟩
    · next later =>
      cases admits : admitEntries immediate event d rest s with
      | mk u more =>
        rw [admits] at h
        cases h
        have rest := ih admits
        refine ⟨rest.frame, rest.grows, rest.old, by rw [List.map_cons, rest.entries]; rfl, fun task mem => ?_,
          fun task mem x at_ => ?_, fun task mem => ?_, fun x above below => ?_⟩
        · rcases List.mem_cons.mp mem with rfl | behind
          · rfl
          · exact rest.idle task behind
        · rcases List.mem_cons.mp mem with rfl | behind
          · cases at_
          · exact rest.executed task behind x at_
        · rcases List.mem_cons.mp mem with rfl | behind
          · exact (Bool.eq_false_iff.mpr later).symm
          · exact rest.admitted task behind
        · obtain ⟨task, mem, at_⟩ := rest.onto x above below
          exact ⟨task, List.mem_cons_of_mem _ mem, at_⟩

/-- Without a scope of its own a dispatch gives each execution one of its name. -/
theorem admitEntries_owners {context : Option CqrsDispatchContext} {descriptors : List SagaDescriptor} {event d : Nat}
    {entries : List (SagaDescriptor × SagaTopologyEntry)} {s t : CqrsState} {tasks : List SagaTask}
    (none : scopeOf context = none) (entered : enterSagaRoutes context descriptors s.executionCount = some entries)
    (h : admitEntries (fun _ => true) event d entries s = (t, tasks)) :
    ∀ task ∈ tasks, ∀ x, task.execution = some x → task.topology.continuationScope = x := by
  induction descriptors generalizing entries s t tasks with
  | nil =>
    cases entered
    cases h
    nofun
  | cons descriptor rest ih =>
    obtain ⟨topology, first, entered⟩ := Option.bind_eq_some_iff.mp entered
    obtain ⟨others, more, entered⟩ := Option.bind_eq_some_iff.mp entered
    cases entered
    rw [admitEntries, if_pos rfl] at h
    cases admits : admitEntries (fun _ => true) event d others (dispatchWithOrdering s descriptor event topology d) with
    | mk u tasks' =>
      rw [admits] at h
      cases h
      intro task mem x is
      rcases List.mem_cons.mp mem with rfl | behind
      · cases is
        rw [(enterSagaTopology_some first).1, none]
        rfl
      · exact ih more admits task behind x is

theorem Links.enter {graph : CqrsGraph} {s t u : CqrsState} {d : Nat} {immediate : SagaTopologyEntry → Bool}
    {entries : List (SagaDescriptor × SagaTopologyEntry)} {tasks : List SagaTask} (links : Links graph s)
    (inside : d < s.dispatchCount) (at_ : (s.dispatch d).phase = .discovering)
    (entered : enterSagaRoutes (s.dispatch d).context (matchSagaDescriptors graph (s.dispatch d).event)
      s.executionCount = some entries)
    (admitted : Admitted immediate (s.dispatch d).event d entries s t tasks)
    (owners : ∀ task ∈ tasks, ∀ x, task.execution = some x → task.topology.ownsContinuationScope = true →
      task.topology.continuationScope = x)
    (deferred : ∀ task ∈ tasks, task.execution = none → scopeOf (s.dispatch d).context ≠ none)
    (execution : u.execution = t.execution) (executionCount : u.executionCount = t.executionCount)
    (dispatchCount : u.dispatchCount = s.dispatchCount)
    (here : (u.dispatch d).event = (s.dispatch d).event ∧ (u.dispatch d).context = (s.dispatch d).context ∧
      (u.dispatch d).tasks = tasks ∧ (u.dispatch d).phase ≠ .discovering)
    (others : ∀ c, c ≠ d → u.dispatch c = s.dispatch c) (pipeline : u.pipeline = s.pipeline)
    (pipelineCount : u.pipelineCount = s.pipelineCount) : Links graph u := by
  obtain ⟨event, context, tasksAre, phase⟩ := here
  have none := links.fresh d inside at_
  have grows : s.executionCount ≤ u.executionCount := executionCount ▸ admitted.grows
  have old (x : Nat) (below : x < s.executionCount) : u.execution x = s.execution x :=
    (congrFun execution x).trans (admitted.old x below)
  have valid {c : Option CqrsDispatchContext} (is : ValidContext s c) : ValidContext u c :=
    is.mono grows fun x below => by rw [old x below]; exact ⟨rfl, rfl⟩
  have kept {task : SagaTask} {x : Nat} (is : TaskExecution t d task x) : TaskExecution u d task x :=
    is.mono (Nat.le_of_eq executionCount.symm) (congrFun execution x)
  refine ⟨fun x inside' => ?_, fun c below task mem x is => ?_, fun c below => ?_, fun c below is => ?_,
    fun c below task mem is => ?_, fun c below => ?_, fun p below => ?_⟩
  · by_cases before : x < s.executionCount
    · obtain ⟨below, event', own, task, mem, is⟩ := links.executions x before
      have other : (s.execution x).dispatch ≠ d := by
        rintro rfl
        rw [none] at mem
        cases mem
      rw [old x before, others _ other, dispatchCount]
      exact ⟨below, event', own, task, mem, is⟩
    · rw [executionCount] at inside'
      obtain ⟨task, mem, is⟩ := admitted.onto x (Nat.le_of_not_lt before) inside'
      obtain ⟨-, made, event', -⟩ := admitted.executed task mem x is
      rw [execution, made.dispatch, dispatchCount, event, tasksAre, made.owns, made.scope]
      exact ⟨inside, event', owners task mem x is, task, mem, is⟩
  · by_cases same : c = d
    · subst same
      rw [tasksAre] at mem
      exact kept (admitted.executed task mem x is).2.1
    · rw [others c same] at mem
      have made := links.tasks c (dispatchCount ▸ below) task mem x is
      exact made.mono grows (old x made.inside)
  · by_cases same : c = d
    · subst same
      rw [event, context, tasksAre, admitted.entries]
      exact .inr ⟨_, entered⟩
    · rw [others c same]
      exact links.entered c (dispatchCount ▸ below)
  · by_cases same : c = d
    · subst same
      exact absurd is phase
    · rw [others c same] at is ⊢
      exact links.fresh c (dispatchCount ▸ below) is
  · by_cases same : c = d
    · subst same
      rw [tasksAre] at mem
      rw [context]
      exact deferred task mem is
    · rw [others c same] at mem ⊢
      exact links.deferred c (dispatchCount ▸ below) task mem is
  · by_cases same : c = d
    · subst same
      rw [context]
      exact valid (links.dispatches c inside)
    · rw [others c same]
      exact valid (links.dispatches c (dispatchCount ▸ below))
  · rw [pipelineCount] at below
    obtain ⟨valid', called⟩ := links.pipelines p below
    rw [pipeline]
    exact ⟨valid valid', called.mono below grows (fun q _ => by rw [pipeline]) fun x before => by rw [old x before]⟩

theorem set_map {α β : Type} {f : α → β} {l : List α} {j : Nat} {a b : α} (here : l[j]? = some a) (same : f b = f a) :
    (l.set j b).map f = l.map f := by
  obtain ⟨inside, is⟩ := List.getElem?_eq_some_iff.mp here
  rw [List.map_set, same, ← is, ← List.getElem_map f, List.set_getElem_self]
  rw [List.length_map]
  exact inside

/-- The tasks of a dispatch where one has got its execution. -/
theorem set_links {tasks : List SagaTask} {j : Nat} {task new : SagaTask} (here : tasks[j]? = some task)
    (same : new.entry = task.entry) :
    (tasks.set j new).map SagaTask.entry = tasks.map SagaTask.entry ∧ new ∈ tasks.set j new ∧
      (∀ other ∈ tasks.set j new, other ∈ tasks ∨ other = new) ∧
      ∀ other ∈ tasks, other ≠ task → other ∈ tasks.set j new := by
  obtain ⟨inside, is⟩ := List.getElem?_eq_some_iff.mp here
  refine ⟨set_map here same, List.mem_set inside new, fun other mem => List.mem_or_eq_of_mem_set mem,
    fun other mem ne => ?_⟩
  obtain ⟨i, inside', at_⟩ := List.getElem_of_mem mem
  have apart : j ≠ i := by
    rintro rfl
    exact ne (at_.symm.trans is)
  refine List.mem_iff_getElem.mpr ⟨i, by rw [List.length_set]; exact inside', ?_⟩
  rw [List.getElem_set_ne apart, at_]

/-- A continuation admits a task that had to wait for it. -/
theorem Links.ranTask {graph : CqrsGraph} {s : CqrsState} {d j : Nat} {task : SagaTask} (links : Links graph s)
    (inside : d < s.dispatchCount) (here : (s.dispatch d).tasks[j]? = some task) (unscheduled : task.execution = none) :
    Links graph ((dispatchWithOrdering s task.descriptor (s.dispatch d).event task.topology d).modifyDispatch d
      fun dispatch =>
        { dispatch with tasks := dispatch.tasks.set j { task with execution := some s.executionCount, started := true } }) := by
  generalize is : (dispatchWithOrdering s task.descriptor (s.dispatch d).event task.topology d).modifyDispatch d
    (fun dispatch =>
      { dispatch with tasks := dispatch.tasks.set j { task with execution := some s.executionCount, started := true } }) = u
  have member : task ∈ (s.dispatch d).tasks := List.mem_of_getElem? here
  obtain ⟨entries, newMem, from_, stays⟩ := @set_links _ j task
    { task with execution := some s.executionCount, started := true } here rfl
  generalize tasksAre : (s.dispatch d).tasks.set j { task with execution := some s.executionCount, started := true } = tasks
    at entries newMem from_ stays
  have count : u.executionCount = s.executionCount + 1 := by rw [← is]; rfl
  have old (x : Nat) (below : x < s.executionCount) : u.execution x = s.execution x := by
    rw [← is]
    exact Function.update_of_ne (Nat.ne_of_lt below) _ _
  have new : u.execution s.executionCount = ⟨task.descriptor, (s.dispatch d).event, task.topology.context,
      task.topology.continuationScope, task.topology.ownsContinuationScope, s.executionChains task.descriptor.token, d,
      .waiting⟩ := by
    rw [← is]
    exact Function.update_self _ _ _
  have dispatchCount : u.dispatchCount = s.dispatchCount := by rw [← is]; rfl
  have changed : u.dispatch d = { s.dispatch d with tasks := tasks } := by
    rw [← is, ← tasksAre]
    exact Function.update_self _ _ _
  have others (c : Nat) (ne : c ≠ d) : u.dispatch c = s.dispatch c := by
    rw [← is]
    exact Function.update_of_ne ne _ _
  have pipeline : u.pipeline = s.pipeline := by rw [← is]; rfl
  have pipelineCount : u.pipelineCount = s.pipelineCount := by rw [← is]; rfl
  have grows : s.executionCount ≤ u.executionCount := by omega
  have valid {c : Option CqrsDispatchContext} (is : ValidContext s c) : ValidContext u c :=
    is.mono grows fun x below => by rw [old x below]; exact ⟨rfl, rfl⟩
  have foreign : task.topology.ownsContinuationScope = false := by
    obtain ⟨own, entered⟩ := links.task inside member
    rw [(enterSagaTopology_some entered).2.1, Option.isNone_eq_false_iff, Option.isSome_iff_ne_none]
    exact links.deferred d inside task member unscheduled
  refine ⟨fun x inside' => ?_, fun c below other mem x at_ => ?_, fun c below => ?_, fun c below at_ => ?_,
    fun c below other mem at_ => ?_, fun c below => ?_, fun p below => ?_⟩
  · rcases Nat.lt_succ_iff_lt_or_eq.mp (count ▸ inside') with before | rfl
    · obtain ⟨below, event, own, other, mem, at_⟩ := links.executions x before
      rw [old x before, dispatchCount]
      by_cases same : (s.execution x).dispatch = d
      · rw [same] at event mem ⊢
        rw [changed]
        refine ⟨inside, event, own, other, stays other mem ?_, at_⟩
        rintro rfl
        rw [unscheduled] at at_
        cases at_
      · rw [others _ same]
        exact ⟨below, event, own, other, mem, at_⟩
    · rw [new, dispatchCount]
      dsimp only
      rw [changed]
      exact ⟨inside, rfl, fun owns => absurd (foreign.symm.trans owns) nofun, _, newMem, rfl⟩
  · by_cases same : c = d
    · subst same
      rw [changed] at mem
      rcases from_ other mem with before | rfl
      · have made := links.tasks c inside other before x at_
        exact made.mono grows (old x made.inside)
      · cases at_
        refine ⟨by omega, ?_, ?_, ?_, ?_, ?_⟩ <;> rw [new]
    · rw [others c same] at mem
      have made := links.tasks c (dispatchCount ▸ below) other mem x at_
      exact made.mono grows (old x made.inside)
  · by_cases same : c = d
    · subst same
      rw [changed]
      dsimp only
      rw [entries]
      refine .inr ((links.entered c inside).resolve_left fun none => ?_)
      rw [none] at member
      cases member
    · rw [others c same]
      exact links.entered c (dispatchCount ▸ below)
  · by_cases same : c = d
    · subst same
      rw [changed] at at_
      have none := links.fresh c inside at_
      rw [none] at member
      cases member
    · rw [others c same] at at_ ⊢
      exact links.fresh c (dispatchCount ▸ below) at_
  · by_cases same : c = d
    · subst same
      rw [changed] at mem ⊢
      rcases from_ other mem with before | rfl
      · exact links.deferred c inside other before at_
      · cases at_
    · rw [others c same] at mem ⊢
      exact links.deferred c (dispatchCount ▸ below) other mem at_
  · by_cases same : c = d
    · subst same
      rw [changed]
      exact valid (links.dispatches c inside)
    · rw [others c same]
      exact valid (links.dispatches c (dispatchCount ▸ below))
  · rw [pipelineCount] at below
    obtain ⟨valid', called⟩ := links.pipelines p below
    rw [pipeline]
    exact ⟨valid valid', called.mono below grows (fun q _ => by rw [pipeline]) fun x before => by rw [old x before]⟩

/-! ## Steps -/

theorem Links.enterDispatch {graph : CqrsGraph} {s t : CqrsState} {d : Nat}
    {entries : List (SagaDescriptor × SagaTopologyEntry)} {tasks : List SagaTask} (links : Links graph s)
    (inside : d < s.dispatchCount) (at_ : (s.dispatch d).phase = .discovering)
    (entered : enterSagaRoutes (s.dispatch d).context (matchSagaDescriptors graph (s.dispatch d).event)
      s.executionCount = some entries)
    (admitted : admitEntries (fun _ => true) (s.dispatch d).event d entries s = (t, tasks)) :
    Links graph (t.modifyDispatch d ({ · with tasks, phase := .waiting })) := by
  have made := admitEntries_admitted admitted
  obtain ⟨execution, executionCount, executionChains, rfl⟩ := made.frame
  refine links.enter inside at_ entered made (fun task mem x is owns => ?_) (fun task mem is => ?_) rfl rfl rfl ?_
    (fun c other => Function.update_of_ne other _ _) rfl rfl
  · refine admitEntries_owners ?_ entered admitted task mem x is
    have shape : task.entry ∈ entries := made.entries ▸ List.mem_map_of_mem mem
    obtain ⟨own, topology⟩ := (enterSagaRoutes_mem entered).2 _ shape
    rw [SagaTask.entry] at topology
    rw [(enterSagaTopology_some topology).2.1, Option.isNone_iff_eq_none] at owns
    exact owns
  · have some := made.admitted task mem
    rw [is] at some
    cases some
  · simp [CqrsState.modifyDispatch]

theorem Links.enterReentrant {graph : CqrsGraph} {s t : CqrsState} {d : Nat} {descriptor : SagaDescriptor}
    {topology : SagaTopologyEntry} {entries : List (SagaDescriptor × SagaTopologyEntry)} {tasks : List SagaTask}
    (links : Links graph s) (inside : d < s.dispatchCount) (at_ : (s.dispatch d).phase = .discovering)
    (entered : enterSagaRoutes (s.dispatch d).context (matchSagaDescriptors graph (s.dispatch d).event)
      s.executionCount = some entries)
    (found : entries.find? (·.2.reentrantToken) = some (descriptor, topology))
    (admitted : admitEntries (·.reentrantToken) (s.dispatch d).event d entries s = (t, tasks)) (scope : Nat)
    (queue : List Nat) :
    Links graph ((t.setQueue scope queue).modifyDispatch d
      ({ · with tasks, phase := .settled true, continuation := .queued })) := by
  have made := admitEntries_admitted admitted
  have inScope : scopeOf (s.dispatch d).context ≠ none := by
    obtain ⟨own, topology'⟩ := (enterSagaRoutes_mem entered).2 _ (List.mem_of_find?_eq_some found)
    have reentrant := List.find?_some found
    dsimp only at reentrant topology'
    rw [(enterSagaTopology_some topology').2.2.1] at reentrant
    rcases links.dispatches d inside with ⟨-, none⟩ | ⟨o, -, is, -⟩
    · rw [none] at reentrant
      cases reentrant
    · rw [is]
      nofun
  obtain ⟨execution, executionCount, executionChains, rfl⟩ := made.frame
  refine links.enter inside at_ entered made (fun task mem x is owns => ?_) (fun task mem is => inScope) rfl rfl rfl ?_
    (fun c other => Function.update_of_ne other _ _) rfl rfl
  · have shape : task.entry ∈ entries := made.entries ▸ List.mem_map_of_mem mem
    obtain ⟨own, topology⟩ := (enterSagaRoutes_mem entered).2 _ shape
    rw [SagaTask.entry] at topology
    rw [(enterSagaTopology_some topology).2.1, Option.isNone_iff_eq_none] at owns
    exact absurd owns inScope
  · simp [CqrsState.modifyDispatch, CqrsState.setQueue]

theorem Links.step {graph : CqrsGraph} {s t : CqrsState} {e : CqrsEvent} (links : Links graph s)
    (outcome : Outcome graph s e t) : Links graph t := by
  cases outcome with
  | refused | refusedDispatch => exact links
  | published passed => exact links.addPipeline passed _ _
  | dispatched passed => exact links.addDispatch (links.passed passed) _ _
  | dispatchedPipeline inside at_ =>
    exact (links.addDispatch (links.pipelines _ inside).1 _ _).advance (advance_modifyPipeline rfl rfl)
  | enteredPipeline | undiscoveredPipeline | unresolvedHandler | finishedHandler | finishedEvent | failedEvent =>
    exact links.advance (advance_modifyPipeline rfl rfl)
  | startedHandler => exact links.advance ((advance_modifyPipeline rfl rfl).observe _)
  | @untrackedPipeline p ok =>
    have moved : Advance s (s.setPipeline p (.untracked ok)) := advance_modifyPipeline rfl rfl
    exact links.advance (moved.trans (.of_eq rfl rfl rfl rfl rfl rfl))
  | @releasedPipeline p ok =>
    have moved : Advance s (s.setPipeline p (.released ok)) := advance_modifyPipeline rfl rfl
    refine links.advance (Advance.clear ?_)
    exact moved.trans (.of_eq rfl rfl rfl rfl rfl rfl)
  | emptyDispatch | joinedDispatch => exact links.advance (advance_afterSagas _ _)
  | enteredReentrant inside at_ entered found admitted =>
    exact links.enterReentrant inside at_ entered found admitted _ _
  | enteredDispatch inside at_ entered _ _ admitted => exact links.enterDispatch inside at_ entered admitted
  | failedDispatch | rejectedDispatch | delegatedDispatch =>
    exact links.advance (advance_modifyDispatch rfl rfl rfl (by nofun))
  | delegatedContinuation | joinedDirect | failedContinuation =>
    exact links.advance (advance_modifyDispatch rfl rfl rfl id)
  | joinedContinuation => exact links.advance ((advance_modifyDispatch rfl rfl rfl id).observe _)
  | untrackedDispatch =>
    refine links.advance (Advance.clear ?_)
    exact .of_eq rfl rfl rfl rfl rfl rfl
  | startedSaga => exact links.advance ((advance_setPhase _ _ _).observe _)
  | failedSaga | finishedSaga | resumed => exact links.advance (advance_setPhase _ _ _)
  | settledExecution => exact links.advance ((advance_setPhase s _ _).trans (.of_eq rfl rfl rfl rfl rfl rfl))
  | @shifted x d rest =>
    have moved : Advance s (s.setQueue (s.execution x).continuationScope rest) := .of_eq rfl rfl rfl rfl rfl rfl
    exact links.advance ((moved.trans (advance_setPhase _ _ _)).trans (advance_modifyDispatch rfl rfl rfl id))
  | ranScheduled inside at_ here idle scheduled =>
    exact links.advance (advance_modifyDispatch rfl rfl (set_map here rfl) id)
  | ranTask inside at_ here idle unscheduled => exact links.ranTask inside here unscheduled
  | @droppedRest x =>
    have moved : Advance s (s.setQueue (s.execution x).continuationScope []) := .of_eq rfl rfl rfl rfl rfl rfl
    exact links.advance (moved.trans (advance_setPhase _ _ _))
  | finishedSagaHook =>
    refine links.advance (Advance.clear ?_)
    exact .of_eq rfl rfl rfl rfl rfl rfl
  | _ => exact links.advance (.of_eq rfl rfl rfl rfl rfl rfl)

theorem links_initial (graph : CqrsGraph) : Links graph initial := ⟨nofun, nofun, nofun, nofun, nofun, nofun, nofun⟩

end Fluo.Cqrs
