import Fluo.Lib.Heap
import Fluo.Di.GraphQueries
import Fluo.Di.Registration

/-!
# Container trees at run time

Containers, cached promises, resolution contexts, stale-disposal tasks and
disposal attempts are cells of heaps; the state of a program is `Sys`. The
plan caches are left out: they answer as the registrations do
(`PlanTree.planCaches_transparent`).
-/

namespace Fluo.Di

/-- A scope's single cache and its multi cache are one map with two kinds of
keys; the root's are the singleton caches, a child's the request caches. -/
inductive CacheKey
  | token (t : Token)
  | contribution (ref : Nat)
  deriving DecidableEq, Repr

/-- `object n` was made by a factory, a constructor or as the array of a
multi token; `value n` is what a value provider holds. -/
inductive Val
  | undefined
  | object (n : Nat)
  | value (n : Nat)
  deriving DecidableEq, Repr

inductive Err
  | di (e : DiError)
  | thrown (n : Nat)
  deriving DecidableEq, Repr

/-- What a promise rejects with: one error, or the errors of an
`AggregateError`. -/
abbrev Rejection := List Err

inductive PromiseStatus
  | pending
  | fulfilled (v : Val)
  | rejected (e : Rejection)
  deriving DecidableEq, Repr

/-- A promise that was put into a cache: where, under which key, and the
resolution context that settles it. `view` is what its owner saw when it was
made, `uses` the cached promises its value was built from. -/
structure Materialization where
  owner : Nat
  home : Nat
  key : CacheKey
  provider : NormalizedProvider
  context : Nat
  view : View
  status : PromiseStatus
  uses : List Nat

instance : Inhabited Materialization := ⟨0, 0, .contribution 0, ⟨0, default, .singleton, .useValue 0, [], false⟩,
  0, [], .rejected [], []⟩

structure Object where
  disposable : Bool
  parts : List Val

instance : Inhabited Object := ⟨false, []⟩

inductive Frame
  | enter (t : Token)
  | contributions (c : Nat) (rest : List NormalizedProvider) (values : List Val) (uses : List Nat)
  | deps (c : Nat) (p : NormalizedProvider) (rest : List InjectionToken) (values : List Val)
      (uses : List Nat)
  | settle (promise : Nat)
  deriving DecidableEq, Repr

/-- The loop of `assertStaleDisposalsSettled`: tasks seen, tasks awaited, and
errors to throw. -/
structure StaleWait where
  settled : List Nat
  round : List Nat
  errors : Rejection
  deriving DecidableEq, Repr

inductive Start
  | resolve (c : Nat) (t : Token)
  | contribution (c : Nat) (t : Token) (index : Nat)
  deriving DecidableEq, Repr

def Start.container : Start → Nat
  | .resolve c _ | .contribution c _ _ => c

inductive Ctl
  | stale (start : Start) (wait : StaleWait)
  | eval (c : Nat) (t : Token) (allowForwardRef : Bool)
  | contribution (c : Nat) (p : NormalizedProvider)
  | contributions
  | deps
  | await (promise : Nat) (link : Option Nat)
  | running
  | ret (v : Val) (uses : List Nat)
  | fail (e : Rejection)
  | done (result : Except Rejection Val)
  deriving DecidableEq, Repr

/-- One call of `resolve`: its `chain` and `activeTokens` are the tokens
entered on the stack. -/
structure Context where
  stack : List Frame
  ctl : Ctl

instance : Inhabited Context := ⟨[], .done (.ok .undefined)⟩

inductive TaskStage
  | waiting
  | destroying (v : Val)
  | finishing
  | settled
  deriving DecidableEq, Repr

structure StaleTask where
  promise : Nat
  retryOwner : Nat
  observers : List Nat
  stage : TaskStage
  failed : Bool
  error : Rejection
  errorConsumed : Bool
  retryInstance : Option Val

instance : Inhabited StaleTask := ⟨0, 0, [], .settled, false, [], false, none⟩

inductive Origin
  | direct
  | parent
  deriving DecidableEq, Repr

/-- Where `disposeAll` is. `entries` is the snapshot of cached promises. -/
inductive AttemptStage
  | children (calls : List Nat)
  | stale (entries retryable : List Nat) (wait : StaleWait)
  | retry (entries : List Nat) (rest : List Nat) (attempted : List Val)
  | retrying (entries : List Nat) (task : Nat) (v : Val) (rest : List Nat) (attempted : List Val)
  | gather (entries : List Nat) (attempted : List Val)
  | collect (entries : List Nat) (attempted : List Val) (index : Nat) (found : List Val)
  | destroy (todo failed : List Val)
  | destroying (v : Val) (todo failed : List Val)
  | finish
  | settled (result : Except Rejection Unit)
  deriving DecidableEq, Repr

structure Attempt where
  container : Nat
  origin : Origin
  stage : AttemptStage
  errors : Rejection

instance : Inhabited Attempt := ⟨0, .direct, .settled (.ok ()), []⟩

/-- One call of `dispose`, by a user or by the parent's attempt. -/
structure DisposeCall where
  container : Nat
  attempt : Nat
  starter : Bool
  result : Option (Except Rejection Unit)

instance : Inhabited DisposeCall := ⟨0, 0, false, some (.ok ())⟩

/-- A container. `ancestors` is the chain of `parent` links, nearest first. -/
structure Container where
  ancestors : List Nat
  registry : Registry
  cache : OrderedMap CacheKey Nat
  materialized : List Nat
  pendingDisposables : List Val
  staleTasks : List Nat
  childScopes : List Nat
  trackedByParent : Bool
  disposed : Bool
  disposePromise : Option Nat

instance : Inhabited Container :=
  ⟨[], default, OrderedMap.empty, [], [], [], [], false, false, none⟩

/-- An `onDestroy` call begins or ends. -/
inductive HookEvent
  | invoked (v : Val)
  | completed (v : Val)
  | failed (v : Val)
  deriving DecidableEq, Repr

structure Sys where
  nextRef : Nat
  containers : Heap Container
  promises : Heap Materialization
  objects : Heap Object
  contexts : Heap Context
  tasks : Heap StaleTask
  attempts : Heap Attempt
  calls : Heap DisposeCall
  hooks : List HookEvent

namespace Sys

variable (w : World) (s : Sys)

def lineage (c : Nat) : List Nat := c :: (s.containers.get c).ancestors

def view (c : Nat) : View := (s.lineage c).map fun d => (s.containers.get d).registry

def isRoot (c : Nat) : Bool := (s.containers.get c).ancestors.isEmpty

def root (c : Nat) : Nat := (s.lineage c).getLast (by simp [lineage])

def queries (c : Nat) : Queries Id := (s.view c).queries w

def isDisposedInHierarchy (c : Nat) : Bool := (s.lineage c).any fun d => (s.containers.get d).disposed

def modifyContainer (c : Nat) (f : Container → Container) : Sys :=
  { s with containers := s.containers.modify c f }

def isDisposable : Val → Bool
  | .undefined => false
  | .object n => (s.objects.get n).disposable
  | .value n => w.disposableValue n

/-! ## Where a provider is cached -/

def hasLocalMultiProvider (c : Nat) (p : NormalizedProvider) : Bool :=
  (((s.containers.get c).registry.multiRegistrations.get p.provide).getD []).contains p

/-- The walk of `cacheOwnerFor` over a lineage, for a singleton. -/
def singletonOwner (p : NormalizedProvider) : List Nat → Nat
  | [] => 0
  | [c] => c
  | c :: parent =>
    if (s.containers.get c).registry.registrations.get p.provide = some p ∨
        s.hasLocalMultiProvider c p = true then c
    else singletonOwner p parent

def cacheOwnerFor (c : Nat) (p : NormalizedProvider) : Nat :=
  if p.scope = .singleton then s.singletonOwner p (s.lineage c) else c

/-- `cacheFor`: the container whose cache map holds the instance. -/
def cacheFor (c : Nat) (p : NormalizedProvider) : Except DiError Nat :=
  if p.scope = .singleton then
    if !s.isRoot c ∧ (s.containers.get c).registry.registrations.has p.provide = true then .ok c
    else .ok (s.root c)
  else if s.isRoot c then .error (.requestScope p.provide)
  else .ok c

def multiCacheFor (c : Nat) (p : NormalizedProvider) : Except DiError Nat :=
  if p.scope = .singleton then
    if !s.isRoot c ∧ s.hasLocalMultiProvider c p = true then .ok c
    else .ok (s.root c)
  else if s.isRoot c then .error (.requestScope p.provide)
  else .ok c

/-- `ensureTrackedRequestScope` along a lineage. -/
def ensureTracked : List Nat → Sys → Sys
  | c :: parent :: up, s =>
    if (s.containers.get c).trackedByParent then s
    else
      let s := ensureTracked (parent :: up) s
      let s := s.modifyContainer parent fun x =>
        { x with childScopes := if c ∈ x.childScopes then x.childScopes else x.childScopes ++ [c] }
      s.modifyContainer c fun x => { x with trackedByParent := true }
  | _, s => s

def touch (c : Nat) : Sys := ensureTracked (s.lineage c) s

end Sys

end Fluo.Di
