import Fluo.Runtime.Bootstrap
import Fluo.Runtime.PlatformStop

/-!
# What a creation promises

Its calls are read off its log. The hooks that the calls of a boot and of a
release contain, and their order, are those of the lifecycle instances.
-/

namespace Fluo.Runtime.Bootstrap

open Di Js

def Action.call? : Action → Option Call
  | .called call => some call
  | .bootstrapped _ | .resolved _ _ | .settled _ => none

def calls (log : List Action) : List Call := log.filterMap Action.call?

/-- The step has failed with the error; of several providers the first one in
the order of the results counts. -/
def Action.Fails (error : BootstrapError) : Action → Prop
  | .bootstrapped outcome | .settled outcome => outcome = some error
  | .resolved _ results => ∃ (values : List Nat) (value : Nat) (rest : List (Except Nat Nat)),
      results = values.map Except.ok ++ .error value :: rest ∧ error = .thrown value
  | .called _ => False

/-- The error is that of the first step that has failed. -/
def FailingStep (log : List Action) (error : BootstrapError) : Prop :=
  ∃ before action after, log = before ++ action :: after ∧ action.Fails error ∧
    ∀ earlier ∈ before, ∀ e, ¬ earlier.Fails e

/-- The object that an entry has come to; a contribution to a multi provider
counts when it has a hook. -/
def obtained (hooks : Nat → Hooks) (entry : LifecycleEntry) : Except Nat Nat → Option Nat
  | .ok value =>
    if entry.contributionIndex ≠ none ∧ hooks value = ⟨false, false, false, false⟩ then none else some value
  | .error _ => none

def Call.isHook : Call → Bool
  | .onModuleInit _ | .onApplicationBootstrap _ | .onModuleDestroy _ | .onApplicationShutdown _ => true
  | _ => false

def Call.onModuleInit? : Call → Option LifecycleInstance
  | .onModuleInit i => some i
  | _ => none

def Call.onApplicationBootstrap? : Call → Option LifecycleInstance
  | .onApplicationBootstrap i => some i
  | _ => none

def Call.onModuleDestroy? : Call → Option LifecycleInstance
  | .onModuleDestroy i => some i
  | _ => none

def Call.onApplicationShutdown? : Call → Option LifecycleInstance
  | .onApplicationShutdown i => some i
  | _ => none

/-- No hook of the first kind is called behind one of the second. -/
def Before (first second : Call → Option LifecycleInstance) (l : List Call) : Prop :=
  l.Pairwise fun c d => second c ≠ none → first d = none

structure Released (setup : Setup) (s : State) (error : BootstrapError) : Prop where
  error : FailingStep s.log error
  destroyed : (calls s.log).filterMap Call.onModuleDestroy? = (setup.having Hooks.onModuleDestroy s.lifecycleInstances).reverse
  shutDown : (calls s.log).filterMap Call.onApplicationShutdown? =
    (setup.having Hooks.onApplicationShutdown s.lifecycleInstances).reverse
  destroysFirst : Before Call.onModuleDestroy? Call.onApplicationShutdown? (calls s.log)
  platform : ∀ id, Platform.running s.failedAt id →
    ∃ during, s.shell.log = during ++ s.failedAt ∧ .stopComponent id ∈ during
  adapter : (calls s.log).count .closeAdapter = if setup.method = .create then 1 else 0
  container : (calls s.log).count .disposeContainer = if s.bootstrappedContainer then 1 else 0
  cleanups : s.displaced = false → ∀ callback ∈ s.registered, .cleanup callback ∈ calls s.log

/-- What holds of a creation in every state: each hook is called at most once, in
provider order, and a rejection comes behind the release of what was acquired. -/
structure Creation (setup : Setup) (s : State) : Prop where
  once : ∀ c, c.isHook = true → (calls s.log).count c ≤ 1
  initsInOrder : (calls s.log).filterMap Call.onModuleInit? <+: setup.having Hooks.onModuleInit s.lifecycleInstances
  bootstrapsInOrder : (calls s.log).filterMap Call.onApplicationBootstrap? <+:
    setup.having Hooks.onApplicationBootstrap s.lifecycleInstances
  initsFirst : Before Call.onModuleInit? Call.onApplicationBootstrap? (calls s.log)
  providerOrder : ∀ effective results, .resolved effective results ∈ s.log →
    s.lifecycleInstances.filter (· ≠ .platform) =
      (((lifecycleEntries setup.program setup.hooks effective).zip results).filterMap fun (entry, result) =>
        obtained setup.hooks entry result).map .object ∧
    ((lifecycleEntries setup.program setup.hooks effective).map (·.token)).Sublist
      (effective.lifecycleProviders.map setup.program.providerToken)
  rejected : ∀ error, s.stage = .rejected error → Released setup s error

def hookedObjects (hooks : Nat → Hooks) (results : List (Except Nat Nat)) : List Nat :=
  results.filterMap fun
    | .ok value => if hasLifecycleHook (hooks value) then some value else none
    | .error _ => none

/-- No two lifecycle entries have the same object with hooks, and no readiness
marker throws while a failed creation resets it. -/
def Careful (setup : Setup) (s : State) : Event → Prop
  | .resolved results => (hookedObjects setup.hooks results).Nodup
  | .returned error =>
    match s.stage with
    | .resetting _ _ => error = none
    | _ => True
  | .bootstrapped .. | .platform _ | .registerCleanup _ | .unregisterCleanup _ => True

instance (setup : Setup) (s : State) (event : Event) : Decidable (Careful setup s event) :=
  match event with
  | .resolved _ => inferInstanceAs (Decidable (List.Nodup _))
  | .returned error =>
    match h : s.stage with
    | .resetting .. => decidable_of_iff (error = none) (by simp [Careful, h])
    | .bootstrapping | .resolving _ | .booting .. | .created | .cleaning .. | .releasing .. | .rejected _ =>
      isTrue (by simp [Careful, h])
  | .bootstrapped .. | .platform _ | .registerCleanup _ | .unregisterCleanup _ => isTrue trivial

/-! ## The failing step -/

def Action.error? : Action → Option BootstrapError
  | .bootstrapped error | .settled error => error
  | .resolved _ results => resolutionError results
  | .called _ => none

def failingStep (log : List Action) : Option BootstrapError := log.findSome? Action.error?

theorem resolutionError_some {results : List (Except Nat Nat)} {error : BootstrapError} :
    resolutionError results = some error ↔ ∃ (values : List Nat) (value : Nat) (rest : List (Except Nat Nat)),
      results = values.map Except.ok ++ .error value :: rest ∧ error = .thrown value := by
  induction results with
  | nil => simp [resolutionError]
  | cons result results ih =>
    cases result with
    | error value =>
      constructor
      · intro h
        exact ⟨[], value, results, rfl, (Option.some.inj h).symm⟩
      · rintro ⟨values, value', rest, e, rfl⟩
        cases values with
        | nil =>
          cases e
          rfl
        | cons => cases e
    | ok value =>
      have skipped : resolutionError (.ok value :: results) = resolutionError results := rfl
      rw [skipped, ih]
      constructor
      · rintro ⟨values, thrown, rest, rfl, same⟩
        exact ⟨value :: values, thrown, rest, rfl, same⟩
      · rintro ⟨values, thrown, rest, e, same⟩
        cases values with
        | nil => cases e
        | cons _ values =>
          cases e
          exact ⟨values, thrown, rest, rfl, same⟩

theorem Action.error?_some {action : Action} {error : BootstrapError} :
    action.error? = some error ↔ action.Fails error := by
  cases action with
  | bootstrapped | settled => rfl
  | resolved => exact resolutionError_some
  | called => simp [Action.error?, Action.Fails]

theorem failingStep_some {log : List Action} {error : BootstrapError} :
    failingStep log = some error ↔ FailingStep log error := by
  simp only [failingStep, List.findSome?_eq_some_iff, FailingStep, Action.error?_some, Option.eq_none_iff_forall_ne_some,
    ne_eq]

/-- The instances that the code collects are those that the entries have come to. -/
theorem resolvedInstances_eq (hooks : Nat → Hooks) (entries : List LifecycleEntry) (results : List (Except Nat Nat)) :
    resolvedInstances hooks entries results =
      (entries.zip results).filterMap fun (entry, result) => obtained hooks entry result := by
  have unhooked (value : Nat) : hasLifecycleHook (hooks value) = false ↔ hooks value = ⟨false, false, false, false⟩ := by
    cases hooks value
    simp [hasLifecycleHook, and_assoc]
  fun_induction resolvedInstances hooks entries results with
  | case1 entry entries value results kept ih =>
    have counts : ¬ (entry.contributionIndex ≠ none ∧ hooks value = ⟨false, false, false, false⟩) := by
      rw [← unhooked]
      simpa [imp_iff_not_or] using kept
    simp [obtained, counts, ih]
  | case2 entry entries value results dropped ih =>
    have counts : entry.contributionIndex ≠ none ∧ hooks value = ⟨false, false, false, false⟩ := by
      rw [← unhooked]
      simpa using dropped
    simp [obtained, counts, ih]
  | case3 entry entries error results ih => simp [obtained, ih]
  | case4 entries results noValue noError =>
    cases entries with
    | nil => rfl
    | cons entry entries =>
      cases results with
      | nil => rfl
      | cons result results =>
        cases result with
        | ok value => exact (noValue _ _ _ _ rfl rfl).elim
        | error value => exact (noError _ _ _ _ rfl rfl).elim

/-! ## Lists of calls -/

@[simp] theorem calls_append (l l' : List Action) : calls (l ++ l') = calls l ++ calls l' := List.filterMap_append

@[simp] theorem failingStep_append (l l' : List Action) :
    failingStep (l ++ l') = (failingStep l).or (failingStep l') := List.findSome?_append

variable {setup : Setup}

@[simp] theorem onModuleInit?_bootstrapCalls (modules : List ModuleType) (instances : List LifecycleInstance) :
    (setup.bootstrapCalls modules instances).filterMap Call.onModuleInit? = setup.having Hooks.onModuleInit instances := by
  simp [Setup.bootstrapCalls, Setup.resetReadinessState, Call.onModuleInit?, List.filterMap_append, List.filterMap_map,
    Function.comp_def, List.filterMap_cons, -List.filterMap_eq_nil_iff]

@[simp] theorem onApplicationBootstrap?_bootstrapCalls (modules : List ModuleType) (instances : List LifecycleInstance) :
    (setup.bootstrapCalls modules instances).filterMap Call.onApplicationBootstrap? =
      setup.having Hooks.onApplicationBootstrap instances := by
  simp [Setup.bootstrapCalls, Setup.resetReadinessState, Call.onApplicationBootstrap?, List.filterMap_append,
    List.filterMap_map, Function.comp_def, List.filterMap_cons, -List.filterMap_eq_nil_iff]

@[simp] theorem onModuleDestroy?_bootstrapCalls (modules : List ModuleType) (instances : List LifecycleInstance) :
    (setup.bootstrapCalls modules instances).filterMap Call.onModuleDestroy? = [] := by
  simp [Setup.bootstrapCalls, Setup.resetReadinessState, Call.onModuleDestroy?, List.filterMap_append,
    List.filterMap_map, Function.comp_def, List.filterMap_cons, -List.filterMap_eq_nil_iff]

@[simp] theorem onApplicationShutdown?_bootstrapCalls (modules : List ModuleType) (instances : List LifecycleInstance) :
    (setup.bootstrapCalls modules instances).filterMap Call.onApplicationShutdown? = [] := by
  simp [Setup.bootstrapCalls, Setup.resetReadinessState, Call.onApplicationShutdown?, List.filterMap_append,
    List.filterMap_map, Function.comp_def, List.filterMap_cons, -List.filterMap_eq_nil_iff]

/-- What is read off the calls of a release is read off those of the hooks. -/
theorem filterMap_releaseCalls {f : Call → Option LifecycleInstance} (adapter : f .closeAdapter = none)
    (dispose : f .disposeContainer = none) (instances : List LifecycleInstance) (container : Bool) :
    (setup.releaseCalls instances container).filterMap f = (setup.shutdownHooks instances).filterMap f := by
  simp only [Setup.releaseCalls, List.filterMap_append]
  split <;> split <;> simp [adapter, dispose]

@[simp] theorem onModuleDestroy?_releaseCalls (instances : List LifecycleInstance) (container : Bool) :
    (setup.releaseCalls instances container).filterMap Call.onModuleDestroy? =
      (setup.having Hooks.onModuleDestroy instances).reverse := by
  rw [filterMap_releaseCalls rfl rfl]
  simp [Setup.shutdownHooks, Call.onModuleDestroy?, List.filterMap_append, List.filterMap_map, Function.comp_def]

@[simp] theorem onApplicationShutdown?_releaseCalls (instances : List LifecycleInstance) (container : Bool) :
    (setup.releaseCalls instances container).filterMap Call.onApplicationShutdown? =
      (setup.having Hooks.onApplicationShutdown instances).reverse := by
  rw [filterMap_releaseCalls rfl rfl]
  simp [Setup.shutdownHooks, Call.onApplicationShutdown?, List.filterMap_append, List.filterMap_map, Function.comp_def]

@[simp] theorem onModuleInit?_releaseCalls (instances : List LifecycleInstance) (container : Bool) :
    (setup.releaseCalls instances container).filterMap Call.onModuleInit? = [] := by
  rw [filterMap_releaseCalls rfl rfl]
  simp [Setup.shutdownHooks, Call.onModuleInit?, List.filterMap_append, List.filterMap_map, Function.comp_def]

@[simp] theorem onApplicationBootstrap?_releaseCalls (instances : List LifecycleInstance) (container : Bool) :
    (setup.releaseCalls instances container).filterMap Call.onApplicationBootstrap? = [] := by
  rw [filterMap_releaseCalls rfl rfl]
  simp [Setup.shutdownHooks, Call.onApplicationBootstrap?, List.filterMap_append, List.filterMap_map, Function.comp_def]

/-- The calls of a creation by their parts. -/
def trace (boot : List Call) (resets : List ModuleType) (cleanups : List Nat) (releases : List Call) : List Call :=
  boot ++ (resets.map Call.markStarting ++ cleanups.map Call.cleanup) ++ releases

theorem trace_filterMap (f : Call → Option LifecycleInstance) (marks : ∀ m, f (.markStarting m) = none)
    (cleans : ∀ c, f (.cleanup c) = none) (boot releases : List Call) (resets : List ModuleType) (cleanups : List Nat) :
    (trace boot resets cleanups releases).filterMap f = boot.filterMap f ++ releases.filterMap f := by
  simp [trace, List.filterMap_append, List.filterMap_map, marks, cleans]

theorem count_le_one {f : Call → Option LifecycleInstance} {l : List Call} {c : Call} {i : LifecycleInstance}
    (reads : f c = some i) (distinct : (l.filterMap f).Nodup) : l.count c ≤ 1 := by
  have le : l.count c ≤ (l.filterMap f).count i := by
    clear distinct
    induction l with
    | nil => simp
    | cons d rest ih =>
      by_cases e : d = c
      · subst e
        simp [reads, ih]
      · rw [List.count_cons_of_ne e, List.filterMap_cons]
        split
        · exact ih
        · exact ih.trans (List.count_le_count_cons ..)
  exact le.trans (List.nodup_iff_count_le_one.mp distinct i)

/-! ## Order of the calls -/

section Order

variable {first second : Call → Option LifecycleInstance} {l l' : List Call}

theorem Before.append (h : Before first second l) (h' : Before first second l')
    (none : l.filterMap second = [] ∨ l'.filterMap first = []) : Before first second (l ++ l') := by
  refine List.pairwise_append.mpr ⟨h, h', fun c hc d hd is => ?_⟩
  rcases none with none | none
  · exact absurd (List.filterMap_eq_nil_iff.mp none c hc) is
  · exact List.filterMap_eq_nil_iff.mp none d hd

theorem before_of_no_second (none : l.filterMap second = []) : Before first second l :=
  List.pairwise_of_forall_mem_list fun c hc _ _ is => absurd (List.filterMap_eq_nil_iff.mp none c hc) is

theorem before_of_no_first (none : l.filterMap first = []) : Before first second l :=
  List.pairwise_of_forall_mem_list fun _ _ d hd _ => List.filterMap_eq_nil_iff.mp none d hd

theorem Before.earlier (h : Before first second l') (le : l <+: l') : Before first second l :=
  List.Pairwise.sublist le.sublist h

theorem filterMap_prefix_nil (le : l <+: l') (none : l'.filterMap first = []) : l.filterMap first = [] :=
  List.prefix_nil.mp (none ▸ le.filterMap first)

end Order

theorem before_bootstrapCalls (modules : List ModuleType) (instances : List LifecycleInstance) :
    Before Call.onModuleInit? Call.onApplicationBootstrap? (setup.bootstrapCalls modules instances) := by
  have early : Before Call.onModuleInit? Call.onApplicationBootstrap? (setup.resetReadinessState modules ++
      (setup.having Hooks.onModuleInit instances).map .onModuleInit) :=
    before_of_no_second (by simp [Setup.resetReadinessState, Call.onApplicationBootstrap?, List.filterMap_map, Function.comp_def])
  have none : ((setup.having Hooks.onApplicationBootstrap instances).map Call.onApplicationBootstrap ++
      ([Call.startPlatform] ++ ((modules.filter setup.readinessAware).map Call.markReady ++
        (modules.map Call.logInitialized ++ [Call.assemble])))).filterMap Call.onModuleInit? = [] := by
    simp [Call.onModuleInit?, List.filterMap_append, List.filterMap_map, Function.comp_def, List.filterMap_cons, -List.filterMap_eq_nil_iff]
  have both := early.append (before_of_no_first none) (.inr none)
  simpa [Setup.bootstrapCalls] using both

theorem before_releaseCalls (instances : List LifecycleInstance) (container : Bool) :
    Before Call.onModuleDestroy? Call.onApplicationShutdown? (setup.releaseCalls instances container) := by
  have early : Before Call.onModuleDestroy? Call.onApplicationShutdown?
      ((setup.having Hooks.onModuleDestroy instances).reverse.map .onModuleDestroy) :=
    before_of_no_second (by simp [Call.onApplicationShutdown?, List.filterMap_map, Function.comp_def])
  have none : ((setup.having Hooks.onApplicationShutdown instances).reverse.map Call.onApplicationShutdown ++
      ((if setup.method = FactoryMethod.create then [Call.closeAdapter] else []) ++
        (if container then [Call.disposeContainer] else []))).filterMap Call.onModuleDestroy? = [] := by
    split <;> split <;> simp [Call.onModuleDestroy?, List.filterMap_append, List.filterMap_map, Function.comp_def]
  have both := early.append (before_of_no_first none) (.inr none)
  simpa [Setup.releaseCalls, Setup.shutdownHooks] using both

end Fluo.Runtime.Bootstrap
