import Fluo.Runtime.ModuleGraph
import Fluo.Runtime.PlatformShell

/-!
# Creating an application

`FluoFactory.create` and `createApplicationContext` behind the compiled module
graph. A step is what runs between two calls of code that is not the runtime's
own: hooks, readiness markers, cleanups, the adapter and the container. They may
fail, and register or unregister cleanups at any time; the platform shell is left
to the runtime. Reports of failures are left out: nothing follows them.
-/

namespace Fluo.Runtime.Bootstrap

open Di

structure Hooks where
  onModuleInit : Bool
  onApplicationBootstrap : Bool
  onModuleDestroy : Bool
  onApplicationShutdown : Bool
  deriving DecidableEq

def hasLifecycleHook (hooks : Hooks) : Bool :=
  hooks.onModuleInit || hooks.onApplicationBootstrap || hooks.onModuleDestroy || hooks.onApplicationShutdown

inductive BootstrapError where
  | thrown (value : Nat)
  /-- The modules that registered the token; a runtime provider has none. -/
  | duplicateProvider (token : Token) (owner previous : Option ModuleType)
  | platform (error : PlatformShellError)
  deriving DecidableEq

inductive DuplicateProviderPolicy where
  | warn
  | throw
  | ignore
  deriving DecidableEq

/-! ## Provider policy -/

def isMultiProvider : Provider → Bool
  | .valueProvider _ _ multi | .factoryProvider _ _ _ _ _ multi | .classProvider _ _ _ _ multi => multi
  | .classType _ | .existingProvider _ _ | .malformed => false

section Policy

variable (P : Program)

def classScope (c : Nat) : Option Scope := (P.world.getClassDiMetadata (.cls c)).bind (·.scope)

def providerScope : Provider → Scope
  | .classType c => (classScope P c).getD .singleton
  | .valueProvider .. | .existingProvider .. | .malformed => .singleton
  | .factoryProvider _ _ _ scope resolverClass _ => (scope.or (resolverClass.bind (classScope P))).getD .singleton
  | .classProvider _ c _ scope _ => (scope.or (classScope P c)).getD .singleton

def isDirectSingletonContextProvider (provider : Provider) (includeMulti : Bool) : Bool :=
  if isMultiProvider provider && !includeMulti then false
  else
    match provider with
    | .existingProvider .. | .valueProvider .. => false
    | provider => providerScope P provider = .singleton

/-! ## The effective providers -/

structure SelectedProviderEntry where
  moduleType : Option ModuleType
  provider : Provider
  token : Token

/-- The entries so far with the indexes of the single ones that win. -/
structure Selection where
  indexes : OrderedMap Token Nat
  entries : List SelectedProviderEntry

namespace Selection

def push (selection : Selection) (entry : SelectedProviderEntry) : Selection where
  indexes :=
    if isMultiProvider entry.provider then selection.indexes
    else selection.indexes.set entry.token selection.entries.length
  entries := selection.entries ++ [entry]

def add (policy : DuplicateProviderPolicy) (selection : Selection) (entry : SelectedProviderEntry) :
    Except BootstrapError Selection :=
  match (selection.indexes.get entry.token).bind (selection.entries[·]?) with
  | some existing =>
    if isMultiProvider entry.provider = false ∧ policy = .throw then
      .error (.duplicateProvider entry.token entry.moduleType existing.moduleType)
    else .ok (selection.push entry)
  | none => .ok (selection.push entry)

def of (policy : DuplicateProviderPolicy) (entries : List SelectedProviderEntry) : Except BootstrapError Selection :=
  entries.foldlM (add policy) ⟨OrderedMap.empty, []⟩

def selected (selection : Selection) : List SelectedProviderEntry :=
  (selection.entries.zipIdx.filter fun (entry, index) =>
    isMultiProvider entry.provider || selection.indexes.values.contains index).map (·.1)

end Selection

structure BootstrapEffectiveProviders where
  runtimeProviders : List Provider
  moduleProviders : List Provider

def selectEffectiveBootstrapProviders (modules : List CompiledModule) (runtimeProviders : List Provider)
    (policy : DuplicateProviderPolicy) : Except BootstrapError BootstrapEffectiveProviders := do
  let runtimeSelection ← Selection.of policy (runtimeProviders.map fun p => ⟨none, p, P.providerToken p⟩)
  let moduleSelection ← Selection.of policy (modules.flatMap fun m =>
    m.definition.providers.map fun p => ⟨some m.type, p, P.providerToken p⟩)
  let single := fun token => runtimeProviders.any fun p => P.providerToken p = token && !isMultiProvider p
  let multi := fun token => runtimeProviders.any fun p => P.providerToken p = token && isMultiProvider p
  return {
    runtimeProviders := runtimeSelection.selected.map (·.provider)
    moduleProviders := (moduleSelection.selected.filter fun entry =>
      !(single entry.token || (multi entry.token && !isMultiProvider entry.provider))).map (·.provider) }

/-! ## Lifecycle entries -/

structure LifecycleEntry where
  contributionIndex : Option Nat
  token : Token
  useValue : Option Nat

variable (hooks : Nat → Hooks)

/-- The `useValue` of a hook bearing value provider. -/
def hookBearingValue : Provider → Option Nat
  | .valueProvider _ value _ => if hasLifecycleHook (hooks value) then some value else none
  | _ => none

structure Collection where
  lifecycleEntries : List LifecycleEntry
  seenSingleTokens : List Token
  multiContributionIndexes : OrderedMap Token Nat

def Collection.push (c : Collection) (entry : LifecycleEntry) : Collection :=
  { c with lifecycleEntries := c.lifecycleEntries ++ [entry] }

def Collection.see (c : Collection) (token : Token) : Collection :=
  { c with seenSingleTokens := token :: c.seenSingleTokens }

def Collection.count (c : Collection) (token : Token) (index : Nat) : Collection :=
  { c with multiContributionIndexes := c.multiContributionIndexes.set token index }

def Collection.add (c : Collection) (provider : Provider) : Collection :=
  let token := P.providerToken provider
  if isMultiProvider provider then
    let contributionIndex := (c.multiContributionIndexes.get token).getD 0
    let c := c.count token (contributionIndex + 1)
    match hookBearingValue hooks provider with
    | some value => c.push ⟨none, token, some value⟩
    | none =>
      if isDirectSingletonContextProvider P provider true then c.push ⟨some contributionIndex, token, none⟩ else c
  else if token ∈ c.seenSingleTokens then c
  else
    match hookBearingValue hooks provider with
    | some value => (c.see token).push ⟨none, token, some value⟩
    | none =>
      if isDirectSingletonContextProvider P provider false then (c.see token).push ⟨none, token, none⟩ else c

def BootstrapEffectiveProviders.lifecycleProviders (effective : BootstrapEffectiveProviders) : List Provider :=
  effective.runtimeProviders ++ effective.moduleProviders

def lifecycleEntries (effective : BootstrapEffectiveProviders) : List LifecycleEntry :=
  (effective.lifecycleProviders.foldl (Collection.add P hooks) ⟨[], [], OrderedMap.empty⟩).lifecycleEntries

/-- A result that `Promise.allSettled` can have for the entry. -/
def LifecycleEntry.settlesWith (entry : LifecycleEntry) (result : Except Nat Nat) : Bool :=
  match entry.useValue, result with
  | none, _ => true
  | some value, .ok value' => value = value'
  | some _, .error _ => false

/-- The instances of the fulfilled results in the order of the entries. -/
def resolvedInstances : List LifecycleEntry → List (Except Nat Nat) → List Nat
  | entry :: entries, .ok value :: results =>
    if entry.contributionIndex.isNone || hasLifecycleHook (hooks value) then value :: resolvedInstances entries results
    else resolvedInstances entries results
  | _ :: entries, .error _ :: results => resolvedInstances entries results
  | _, _ => []

def resolutionError (results : List (Except Nat Nat)) : Option BootstrapError :=
  results.findSome? fun
    | .ok _ => none
    | .error value => some (.thrown value)

end Policy

/-! ## The machine -/

inductive LifecycleInstance where
  | object (value : Nat)
  /-- The instance whose `onModuleDestroy` stops the platform. -/
  | platform
  deriving DecidableEq

def LifecycleInstance.hooks (hooks : Nat → Hooks) : LifecycleInstance → Hooks
  | .object value => hooks value
  | .platform => ⟨false, false, true, false⟩

/-- Calls of code that is not the runtime's own; `assemble` is what creates the
dispatcher and the shell, `startPlatform` goes to the components. -/
inductive Call where
  | markStarting (m : ModuleType)
  | onModuleInit (owner : LifecycleInstance)
  | onApplicationBootstrap (owner : LifecycleInstance)
  | startPlatform
  | markReady (m : ModuleType)
  | logInitialized (m : ModuleType)
  | assemble
  | cleanup (callback : Nat)
  | onModuleDestroy (owner : LifecycleInstance)
  | onApplicationShutdown (owner : LifecycleInstance)
  | closeAdapter
  | disposeContainer
  deriving DecidableEq

def Call.operation : Call → Option PlatformLifecycleOperation
  | .startPlatform => some .start
  | .onModuleDestroy .platform => some .stop
  | _ => none

/-- What can be seen of a creation, the earliest first. -/
inductive Action where
  | bootstrapped (error : Option BootstrapError)
  | resolved (effective : BootstrapEffectiveProviders) (results : List (Except Nat Nat))
  | called (call : Call)
  | settled (error : Option BootstrapError)

/-- What the creation waits for; a failed one carries the error of its step. -/
inductive Stage where
  | bootstrapping
  | resolving (effective : BootstrapEffectiveProviders)
  | booting (call : Call) (rest : List Call)
  | created
  | resetting (error : BootstrapError) (rest : List Call)
  /-- The loop over the live array continues at index `next`. -/
  | cleaning (error : BootstrapError) (next : Nat)
  | releasing (error : BootstrapError) (call : Call) (rest : List Call)
  | rejected (error : BootstrapError)

inductive FactoryMethod where
  | create
  | createApplicationContext
  deriving DecidableEq

structure Setup where
  method : FactoryMethod
  program : Program
  hooks : Nat → Hooks
  /-- `options.providers`. -/
  providers : List Provider
  bootstrapProviderTokens : Nat
  logger : Nat
  duplicateProviderPolicy : DuplicateProviderPolicy
  components : List RegisteredPlatformComponent
  /-- The modules that have `markStarting` and `markReady`. -/
  readinessAware : ModuleType → Bool
  /-- The cleanup of the studio devtools, where there are any. -/
  runtimeCleanup : List Nat

structure State where
  stage : Stage
  bootstrappedContainer : Bool
  bootstrappedModules : List ModuleType
  lifecycleInstances : List LifecycleInstance
  shell : Platform.System
  runtimeCleanup : List Nat
  log : List Action
  /-- What had been seen of the platform when the step failed. -/
  failedAt : List Platform.Action
  /-- The callbacks that are registered when the loop over them ends. -/
  registered : List Nat
  /-- During the loop a callback was unregistered that had been called. -/
  displaced : Bool

/-- The symbols of `tokens.ts` that the factory registers values under. -/
def BOOTSTRAP_PROVIDER_TOKENS : Token := .sym 0
def APPLICATION_LOGGER : Token := .sym 1

namespace Setup

variable (setup : Setup)

def createRuntimeProviders : List Provider :=
  setup.providers ++ [Provider.valueProvider BOOTSTRAP_PROVIDER_TOKENS setup.bootstrapProviderTokens false,
    .valueProvider APPLICATION_LOGGER setup.logger false]

def resetReadinessState (modules : List ModuleType) : List Call :=
  (modules.filter setup.readinessAware).map .markStarting

def having (hook : Hooks → Bool) (instances : List LifecycleInstance) : List LifecycleInstance :=
  instances.filter fun i => hook (i.hooks setup.hooks)

/-- The calls of `runBootstrapLifecycle` and of what follows it. -/
def bootstrapCalls (modules : List ModuleType) (instances : List LifecycleInstance) : List Call :=
  setup.resetReadinessState modules ++ (setup.having Hooks.onModuleInit instances).map Call.onModuleInit ++
    (setup.having Hooks.onApplicationBootstrap instances).map Call.onApplicationBootstrap ++ [Call.startPlatform] ++
    (modules.filter setup.readinessAware).map Call.markReady ++ modules.map Call.logInitialized ++ [Call.assemble]

/-- The calls of `runShutdownHooks`: two passes in reverse order. -/
def shutdownHooks (instances : List LifecycleInstance) : List Call :=
  (setup.having Hooks.onModuleDestroy instances).reverse.map Call.onModuleDestroy ++
    (setup.having Hooks.onApplicationShutdown instances).reverse.map Call.onApplicationShutdown

/-- What `runBootstrapFailureCleanup` calls behind the cleanup callbacks. -/
def releaseCalls (instances : List LifecycleInstance) (container : Bool) : List Call :=
  setup.shutdownHooks instances ++ (if setup.method = .create then [.closeAdapter] else []) ++
    (if container then [.disposeContainer] else [])

end Setup

namespace State

def initial (setup : Setup) : State :=
  ⟨.bootstrapping, false, [], [], .initial, setup.runtimeCleanup, [], [], [], false⟩

variable (setup : Setup)

def record (s : State) (action : Action) : State := { s with log := s.log ++ [action] }

def call (s : State) (c : Call) : State :=
  { s.record (.called c) with
    shell :=
      match c.operation with
      | some operation => s.shell.runLifecycleTransition setup.components operation
      | none => s.shell }

def boot (s : State) : List Call → State
  | [] => { s with stage := .created }
  | c :: rest => ({ s with stage := .booting c rest }).call setup c

/-- The end of `runBootstrapFailureCleanup`: a call that fails skips none. -/
def release (s : State) (error : BootstrapError) : List Call → State
  | [] => { s with stage := .rejected error }
  | c :: rest => ({ s with stage := .releasing error c rest }).call setup c

/-- The loop of `runCleanupCallbacks` over the live array. -/
def cleanupNext (s : State) (error : BootstrapError) (next : Nat) : State :=
  match s.runtimeCleanup[next]? with
  | some callback => ({ s with stage := .cleaning error (next + 1) }).call setup (.cleanup callback)
  | none =>
    ({ s with registered := s.runtimeCleanup }).release setup error
      (setup.releaseCalls s.lifecycleInstances s.bootstrappedContainer)

def reset (s : State) (error : BootstrapError) : List Call → State
  | [] => s.cleanupNext setup error 0
  | c :: rest => ({ s with stage := .resetting error rest }).call setup c

/-- The `catch` block. -/
def fail (s : State) (error : BootstrapError) : State :=
  ({ s with failedAt := s.shell.log }).reset setup error (setup.resetReadinessState s.bootstrappedModules)

/-- A step has settled; the next one follows, or the `catch` block. -/
def proceed (s : State) (error : Option BootstrapError) (rest : List Call) : State :=
  match error with
  | none => s.boot setup rest
  | some error => s.fail setup error

/-- `bootstrapModule` and the registration of the runtime's tokens. -/
def bootstrapModule (s : State) (compiled : Except Nat (List CompiledModule)) (registered : Option Nat) :
    Except BootstrapError State := do
  let modules ← compiled.mapError .thrown
  let effective ← selectEffectiveBootstrapProviders setup.program modules setup.createRuntimeProviders
    setup.duplicateProviderPolicy
  match registered with
  | some value => .error (.thrown value)
  | none =>
    return { s with
      bootstrappedContainer := true
      bootstrappedModules := modules.map (·.type)
      stage := .resolving effective }

/-- `resolveBootstrapLifecycleInstances`, and the start of the lifecycle; where a
provider has failed, the instances of the others are kept for the cleanup. -/
def resolveLifecycle (s : State) (effective : BootstrapEffectiveProviders) (results : List (Except Nat Nat)) :
    State :=
  let instances := (resolvedInstances setup.hooks (lifecycleEntries setup.program setup.hooks effective) results).map
    LifecycleInstance.object
  let s := s.record (.resolved effective results)
  match resolutionError results with
  | some error => ({ s with lifecycleInstances := instances }).fail setup error
  | none =>
    ({ s with lifecycleInstances := .platform :: instances }).boot setup
      (setup.bootstrapCalls s.bootstrappedModules (.platform :: instances))

/-- A provider calls what `createRuntimeCleanupRegistration` returned for
`callback`; the loop in progress, if any, keeps its index. -/
def unregisterCleanup (s : State) (callback : Nat) : State :=
  { s with
    runtimeCleanup := s.runtimeCleanup.erase callback
    displaced := s.displaced ||
      match s.stage with
      | .cleaning _ next => decide (s.runtimeCleanup.idxOf callback < next)
      | _ => false }

/-- The rejection of the last transition of the shell. -/
def platformError (s : State) : Option BootstrapError :=
  match s.shell.log with
  | .settled _ (.error error) :: _ => some (.platform error)
  | _ => none

end State

inductive Event where
  /-- What compiling the graph and registering the providers have come to. -/
  | bootstrapped (compiled : Except Nat (List CompiledModule)) (registered : Option Nat)
  /-- What `Promise.allSettled` has for the lifecycle entries. -/
  | resolved (results : List (Except Nat Nat))
  /-- The call that the creation waits for has returned or settled. -/
  | returned (error : Option Nat)
  | platform (event : Platform.Event)
  | registerCleanup (callback : Nat)
  | unregisterCleanup (callback : Nat)

def isLifecycleCall : Platform.Event → Bool
  | .call _ => true
  | .validated _ | .componentSettled _ | .reaction => false

/-- A component has settled; the creation goes on when the shell has. -/
def State.platformSettled (s : State) (setup : Setup) (event : Platform.Event) (next : State → State) : Option State :=
  if isLifecycleCall event then none
  else
    (Platform.step setup.components s.shell event).map fun shell =>
      let s := { s with shell := shell }
      match shell.shell.activeLifecycleTransition with
      | none => next (s.record (.settled s.platformError))
      | some _ => s

def step (setup : Setup) (s : State) : Event → Option State
  | .bootstrapped compiled registered =>
    match s.stage with
    | .bootstrapping =>
      match s.bootstrapModule setup compiled registered with
      | .error error => some ((s.record (.bootstrapped (some error))).fail setup error)
      | .ok s => some (s.record (.bootstrapped none))
    | _ => none
  | .resolved results =>
    match s.stage with
    | .resolving effective =>
      let entries := lifecycleEntries setup.program setup.hooks effective
      if entries.length = results.length ∧ ∀ e ∈ entries.zip results, e.1.settlesWith e.2 then
        some (s.resolveLifecycle setup effective results)
      else none
    | _ => none
  | .returned error =>
    let settled := s.record (.settled (error.map .thrown))
    match s.stage with
    | .booting c rest =>
      if c.operation.isSome then none else some (settled.proceed setup (error.map .thrown) rest)
    | .resetting failure rest =>
      match error with
      | none => some (settled.reset setup failure rest)
      | some value =>
        -- Nothing is cleaned up; only `create` keeps the error of the step.
        some { settled with
          stage := .rejected (if setup.method = .create then failure else .thrown value) }
    | .cleaning failure next => some (settled.cleanupNext setup failure next)
    | .releasing failure c rest =>
      if c.operation.isSome then none else some (settled.release setup failure rest)
    | _ => none
  | .platform event =>
    match s.stage with
    | .booting .startPlatform rest =>
      s.platformSettled setup event fun s => s.proceed setup s.platformError rest
    | .releasing failure (.onModuleDestroy .platform) rest =>
      s.platformSettled setup event fun s => s.release setup failure rest
    | _ => none
  | .registerCleanup callback => some { s with runtimeCleanup := s.runtimeCleanup ++ [callback] }
  | .unregisterCleanup callback => some (s.unregisterCleanup callback)

end Fluo.Runtime.Bootstrap
