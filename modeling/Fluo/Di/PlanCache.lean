import Mathlib.Logic.Function.Basic
import Fluo.Lib.Heap
import Fluo.Di.GraphQueries
import Fluo.Di.Registration

/-!
# The resolution-plan caches

Every container memoizes four queries under its lineage revision, the list of
the `graphRevision` counters from itself up to the root (the source joins them
with `/`; the lists of one container have one length, so comparing the strings
is comparing the lists).
-/

namespace Fluo.Di

inductive PlanKind
  | providerLookup
  | multiProvider
  | requestScopeVerdict
  | effectiveProvider
  deriving DecidableEq, Repr

abbrev PlanKind.Answer : PlanKind → Type
  | .providerLookup => Option NormalizedProvider
  | .multiProvider => List NormalizedProvider
  | .requestScopeVerdict => Bool
  | .effectiveProvider => Option NormalizedProvider

structure CachedResolutionPlan (α : Type) where
  lineageRevision : List Nat
  value : α

/-- A container, as far as its registrations and plans go. `ancestors` is the
chain of `parent` links, nearest first. -/
structure PlanScope where
  ancestors : List Nat
  registry : Registry
  graphRevision : Nat
  disposed : Bool
  plans : (k : PlanKind) → OrderedMap Token (CachedResolutionPlan k.Answer)

instance : Inhabited PlanScope := ⟨[], default, 0, false, fun _ => OrderedMap.empty⟩

def PlanScope.putPlan (x : PlanScope) (k : PlanKind) (t : Token)
    (plan : CachedResolutionPlan k.Answer) : PlanScope :=
  { x with plans := Function.update x.plans k ((x.plans k).set t plan) }

/-- One answer taken from a plan cache, and the registrations it was taken
under. -/
structure CacheRead where
  kind : PlanKind
  token : Token
  view : View
  answer : kind.Answer

/-- All containers of one tree. With `enabled` off no plan is ever read.
`reads` records what was read from the caches so far. -/
structure PlanTree where
  enabled : Bool
  nextRef : Nat
  scopes : Heap PlanScope
  reads : List CacheRead

namespace PlanTree

variable (w : World)

def lineage (s : PlanTree) (c : Nat) : List Nat := c :: (s.scopes.get c).ancestors

def view (s : PlanTree) (up : List Nat) : View := up.map fun c => (s.scopes.get c).registry

def lineageRevision (s : PlanTree) (up : List Nat) : List Nat :=
  up.map fun c => (s.scopes.get c).graphRevision

def readCachedPlan (k : PlanKind) (up : List Nat) (t : Token) : StateM PlanTree (Option k.Answer) :=
  fun s =>
    match up with
    | [] => (none, s)
    | c :: _ =>
      match ((s.scopes.get c).plans k).get t with
      | none => (none, s)
      | some plan =>
        if s.enabled ∧ plan.lineageRevision = s.lineageRevision up then
          (some plan.value, { s with reads := ⟨k, t, s.view up, plan.value⟩ :: s.reads })
        else (none, s)

def writePlanCache (k : PlanKind) (up : List Nat) (t : Token) (a : k.Answer) : StateM PlanTree k.Answer :=
  fun s =>
    match up with
    | [] => (a, s)
    | c :: _ =>
      let plan := ⟨s.lineageRevision up, a⟩
      (a, { s with scopes := s.scopes.modify c fun x => x.putPlan k t plan })

def clearResolutionPlanCaches (c : Nat) (s : PlanTree) : PlanTree :=
  { s with scopes := s.scopes.modify c fun x => { x with plans := fun _ => OrderedMap.empty } }

def advanceGraphRevision (c : Nat) (s : PlanTree) : PlanTree :=
  clearResolutionPlanCaches c
    { s with scopes := s.scopes.modify c fun x => { x with graphRevision := x.graphRevision + 1 } }

def ownRegistration (c : Nat) (t : Token) : StateM PlanTree (Option NormalizedProvider) :=
  fun s => ((s.scopes.get c).registry.registrations.get t, s)

def lookupProvider : List Nat → Token → StateM PlanTree (Option NormalizedProvider)
  | [], _ => pure none
  | c :: parent, t => do
    match ← readCachedPlan .providerLookup (c :: parent) t with
    | some cached => pure cached
    | none =>
      let provider ← match ← ownRegistration c t with
        | some p => pure (some p)
        | none => lookupProvider parent t
      writePlanCache .providerLookup (c :: parent) t provider

/-- The scope's own contributions, and whether they replace inherited ones. -/
def ownContributions (c : Nat) (t : Token) : StateM PlanTree (List NormalizedProvider × Bool) :=
  fun s =>
    let r := (s.scopes.get c).registry
    (((r.multiRegistrations.get t).getD [], decide (t ∈ r.multiOverriddenTokens)), s)

def collectMultiProviders : List Nat → Token → StateM PlanTree (List NormalizedProvider)
  | [], _ => pure []
  | c :: parent, t => do
    match ← readCachedPlan .multiProvider (c :: parent) t with
    | some cached => pure cached
    | none =>
      let (own, overridden) ← ownContributions c t
      let providers ← if overridden then pure own
        else (· ++ own) <$> collectMultiProviders parent t
      writePlanCache .multiProvider (c :: parent) t providers

def hasMulti (up : List Nat) (t : Token) : StateM PlanTree Bool := fun s => ((s.view up).hasMulti t, s)

/-- Memoize a chain of aliases once it is followed without an error. -/
def effectivePlan (up : List Nat) (t : Token)
    (follow : StateM PlanTree (Except DiError (Option NormalizedProvider))) :
    StateM PlanTree (Except DiError (Option NormalizedProvider)) := do
  match ← readCachedPlan .effectiveProvider up t with
  | some cached => pure (.ok cached)
  | none =>
    match ← follow with
    | .error e => pure (.error e)
    | .ok p => return .ok (← writePlanCache .effectiveProvider up t p)

/-- The searches of `GraphQueries`, run on a container of the tree. -/
def queries (fuel : Nat) (up : List Nat) : Queries (StateM PlanTree) where
  world := w
  fuel := fuel
  lookupProvider := lookupProvider up
  collectMultiProviders := collectMultiProviders up
  hasMulti := hasMulti up
  effectivePlan := effectivePlan up

def hasRequestScopedDependency (fuel : Nat) (up : List Nat) (t : Token) : StateM PlanTree Bool := do
  let t := w.normalizeFrameworkServiceToken t
  match ← readCachedPlan .requestScopeVerdict up t with
  | some cached => pure cached
  | none =>
    let verdict ← (queries w fuel up).providerGraphRequiresRequestScope fuel [] t
    writePlanCache .requestScopeVerdict up t verdict

/-! ## Operations -/

/-- The graph questions that `has`, `hasRequestScopedDependency`, `resolve` and
`override` put to a container. -/
inductive Query
  | lookupProvider (t : Token)
  | collectMultiProviders (t : Token)
  | has (t : Token)
  | hasRequestScopedDependency (t : Token)
  | assertSingletonDependencyScopes (p : NormalizedProvider)
  | shouldInvalidateCachedToken (cached overridden : Token)
  | shouldInvalidateCachedProvider (p : NormalizedProvider) (overridden : Token)

inductive Answer
  | provider (p : Option NormalizedProvider)
  | providers (ps : List NormalizedProvider)
  | verdict (b : Bool)
  | thrown (e : Option DiError)
  deriving DecidableEq, Repr

def Query.run {m : Type → Type} [Monad m] (q : Queries m) (verdict : Token → m Bool) :
    Query → m Answer
  | .lookupProvider t => return .provider (← q.lookupProvider t)
  | .collectMultiProviders t => return .providers (← q.collectMultiProviders t)
  | .has t => return .verdict (← q.has t)
  | .hasRequestScopedDependency t => return .verdict (← verdict t)
  | .assertSingletonDependencyScopes p => return .thrown (← q.assertSingletonDependencyScopes p)
  | .shouldInvalidateCachedToken t o => return .verdict (← q.shouldInvalidateCachedToken t o)
  | .shouldInvalidateCachedProvider p o => return .verdict (← q.shouldInvalidateCachedProvider p o)

def ask (c : Nat) (q : Query) : StateM PlanTree Answer := fun s =>
  let up := s.lineage c
  let fuel := (s.view up).depth w
  q.run (queries w fuel up) (hasRequestScopedDependency w fuel up) s

def askAll : List (Nat × Query) → StateM PlanTree (List Answer)
  | [] => pure []
  | (c, q) :: rest => do return (← ask w c q) :: (← askAll rest)

def isDisposedInHierarchy (s : PlanTree) (c : Nat) : Bool :=
  (s.lineage c).any fun d => (s.scopes.get d).disposed

def setRegistry (c : Nat) (r : Registry) (s : PlanTree) : PlanTree :=
  { s with scopes := s.scopes.modify c fun x => { x with registry := r } }

/-- The loop of `register`: a batch that throws keeps what it registered. -/
def registerAll (c : Nat) : List Provider → StateM PlanTree Answer
  | [] => pure (.thrown none)
  | d :: rest => fun s =>
    let ref := s.nextRef
    let s := { s with nextRef := ref + 1 }
    match (s.scopes.get c).registry.registerOne w (s.view (s.scopes.get c).ancestors) ref d with
    | .error e => (.thrown (some e), s)
    | .ok r => registerAll c rest (advanceGraphRevision c (setRegistry c r s))

def register (c : Nat) (ds : List Provider) : StateM PlanTree Answer := fun s =>
  if s.isDisposedInHierarchy c then (.thrown (some .containerDisposed), s)
  else registerAll w c ds s

/-- The second loop of `override`. `examined` are the cached entries that
`invalidateAffectedCachedEntriesInHierarchy` finds in the hierarchy for each
token; each is examined on the container that holds it. -/
def overrideAll (c : Nat) (examined : Token → List (Nat × Query)) :
    List (Token × List NormalizedProvider) → StateM PlanTree (List Answer)
  | [] => pure []
  | (t, ps) :: rest => do
    let evicted ← askAll w (examined t)
    modify fun s => advanceGraphRevision c (setRegistry c ((s.scopes.get c).registry.replace t ps) s)
    return evicted ++ (← overrideAll c examined rest)

def applyOverride (c : Nat) (examined : Token → List (Nat × Query))
    (groups : List (Token × List NormalizedProvider)) :
    Except DiError Unit → StateM PlanTree (List Answer)
  | .error e => pure [.thrown (some e)]
  | .ok _ => overrideAll w c examined groups

def override (c : Nat) (ds : List Provider) (examined : Token → List (Nat × Query)) :
    StateM PlanTree (List Answer) := fun s =>
  if s.isDisposedInHierarchy c then ([.thrown (some .containerDisposed)], s)
  else
    let ref := s.nextRef
    let s := { s with nextRef := ref + ds.length }
    match w.normalizeBatch ref ds with
    | .error e => ([.thrown (some e)], s)
    | .ok ps =>
      let groups := (groupByToken ps).entries
      let up := s.lineage c
      let has := (queries w ((s.view up).depth w) up).has
      let validated := validateOverride (!(s.scopes.get c).ancestors.isEmpty) has groups
      (validated >>= applyOverride w c examined groups) s

def createRequestScope (c : Nat) : StateM PlanTree Answer := fun s =>
  if s.isDisposedInHierarchy c then (.thrown (some .containerDisposed), s)
  else (.thrown none, { s with scopes := s.scopes.push { (default : PlanScope) with
    ancestors := s.lineage c } })

/-- The start of `dispose`; `clearDisposalCaches` runs later. -/
def dispose (c : Nat) (s : PlanTree) : PlanTree :=
  advanceGraphRevision c { s with scopes := s.scopes.modify c fun x => { x with disposed := true } }

/-- What can happen to a tree. `resolve` is a list of `ask`, at any times. -/
inductive Op
  | register (c : Nat) (ds : List Provider)
  | override (c : Nat) (ds : List Provider) (examined : Token → List (Nat × Query))
  | createRequestScope (c : Nat)
  | ask (c : Nat) (q : Query)
  | dispose (c : Nat)
  | clearDisposalCaches (c : Nat)

def Op.container : Op → Nat
  | .register c _ | .override c _ _ | .createRequestScope c | .ask c _ | .dispose c
  | .clearDisposalCaches c => c

def apply : Op → StateM PlanTree (List Answer)
  | .register c ds => return [← register w c ds]
  | .override c ds examined => override w c ds examined
  | .createRequestScope c => return [← createRequestScope c]
  | .ask c q => return [← ask w c q]
  | .dispose c => fun s => ([], dispose c s)
  | .clearDisposalCaches c => fun s => ([], clearResolutionPlanCaches c s)

/-- A call needs a container of the tree to be made on. -/
def call (op : Op) : StateM PlanTree (List Answer) := fun s =>
  if op.container < s.scopes.size then apply w op s else ([], s)

def runAll : List Op → StateM PlanTree (List Answer)
  | [] => pure []
  | op :: rest => do return (← call w op) ++ (← runAll rest)

/-- `new Container()`. -/
def initial (enabled : Bool) : PlanTree := ⟨enabled, 0, Heap.empty.push default, []⟩

end PlanTree

end Fluo.Di
