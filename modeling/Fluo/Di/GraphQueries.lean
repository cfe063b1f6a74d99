import Fluo.Lib.Returns
import Fluo.Di.Registry

/-!
# The container's searches over the provider graph

Each search is written once, over any monad its lookups run in: the plan
caches make them stateful (`PlanCache`), and reading the registrations
directly is the instance `View.queries`.

`fuel` bounds the recursions; the source marks its path in a set, so a path
has no repeated token and `View.depth` is enough.
-/

namespace Fluo.Di

/-- What a search asks of the container it runs on. `effectivePlan` is the
memo around `resolveEffectiveProvider`. -/
structure Queries (m : Type → Type) where
  world : World
  fuel : Nat
  lookupProvider : Token → m (Option NormalizedProvider)
  collectMultiProviders : Token → m (List NormalizedProvider)
  hasMulti : Token → m Bool
  effectivePlan : Token → m (Except DiError (Option NormalizedProvider)) →
    m (Except DiError (Option NormalizedProvider))

def World.resolveProviderDependencyToken (w : World) : InjectionToken → Token
  | .token t | .forwardRef t | .optional t => w.normalizeFrameworkServiceToken t

section Monadic

variable {m : Type → Type} [Monad m]

variable (q : Queries m)

def Queries.has (t : Token) : m Bool := do
  let t := q.world.normalizeFrameworkServiceToken t
  if (← q.lookupProvider t).isSome then pure true else q.hasMulti t

/-- `isOptionalToken(depEntry) && !this.has(depToken)`. -/
def Queries.absent (d : InjectionToken) : m Bool := do
  if d.isOptional then return !(← q.has (q.world.resolveProviderDependencyToken d)) else return false

/-! ## hasRequestScopedDependency -/

def Queries.dependencyEntryRequiresRequestScope (requires : Token → m Bool) (d : InjectionToken) :
    m Bool := do
  if ← q.absent d then pure false else requires (q.world.resolveProviderDependencyToken d)

def Queries.unregisteredClassRequiresRequestScope (requires : Token → m Bool) (t : Token) : m Bool :=
  match q.world.getClassDiMetadata t with
  | none => pure false
  | some metadata =>
    if metadata.scope = some .request then pure true
    else anyOf (q.dependencyEntryRequiresRequestScope requires) (metadata.inject.getD [])

def Queries.normalizedProviderRequiresRequestScope (requires : Token → m Bool)
    (p : NormalizedProvider) : m Bool :=
  if p.scope = .request then pure true
  else match p.useExisting with
    | some target => requires target
    | none => anyOf (q.dependencyEntryRequiresRequestScope requires) p.inject

def Queries.providerGraphRequiresRequestScope : Nat → List Token → Token → m Bool
  | 0, _, _ => pure true
  | n + 1, visited, t =>
    if t ∈ visited then pure true
    else do
      let requires := providerGraphRequiresRequestScope n (t :: visited)
      let provider ← q.lookupProvider t
      let multiProviders ← q.collectMultiProviders t
      if provider.isNone && multiProviders.isEmpty then
        q.unregisteredClassRequiresRequestScope requires t
      else if ← anyOf (q.normalizedProviderRequiresRequestScope requires) provider.toList then
        pure true
      else anyOf (q.normalizedProviderRequiresRequestScope requires) multiProviders

/-! ## assertSingletonDependencyScopes -/

/-- `resolveEffectiveProvider`: follow aliases; `chain` is the path so far,
last token first. -/
def Queries.followAliases : Nat → List Token → Token → m (Except DiError (Option NormalizedProvider))
  | 0, _, _ => pure (.ok none)
  | n + 1, chain, t =>
    if t ∈ chain then pure (.error (.circularDependency (chain.reverse ++ [t]) false))
    else do
      match ← q.lookupProvider t with
      | none => pure (.ok none)
      | some p =>
        match p.useExisting with
        | some target => followAliases n (t :: chain) target
        | none => pure (.ok (some p))

def Queries.resolveEffectiveProvider (t : Token) : m (Except DiError (Option NormalizedProvider)) :=
  q.effectivePlan t (q.followAliases q.fuel [] t)

abbrev Found := Except DiError (Option Token)

/-- `findRequestScopedDependency`; a falsy result does not stop the loop. -/
def Queries.findRequestScopedDependency (find : Token → m Found) : List InjectionToken → m Found
  | [] => pure (.ok none)
  | d :: rest => do
    if ← q.absent d then findRequestScopedDependency find rest
    else
      match ← find (q.world.resolveProviderDependencyToken d) with
      | .error e => pure (.error e)
      | .ok none => findRequestScopedDependency find rest
      | .ok (some r) =>
        if r.truthy then pure (.ok (some r)) else findRequestScopedDependency find rest

/-- The loop over one token's contributions; `some` is a `return`. -/
def Queries.requestScopedContribution (find : Token → m Found) :
    List NormalizedProvider → m Found
  | [] => pure (.ok none)
  | p :: rest =>
    if p.scope = .request then pure (.ok (some p.provide))
    else do
      let found ← match p.useExisting with
        | some target => find target
        | none => q.findRequestScopedDependency find p.inject
      match found with
      | .error e => pure (.error e)
      | .ok none => requestScopedContribution find rest
      | .ok (some r) =>
        if r.truthy then pure (.ok (some r)) else requestScopedContribution find rest

/-- `findRequestScopedMultiContribution`: the contributions of a token, then
of what it is an alias of, and so on. -/
def Queries.findRequestScopedMultiContribution (find : Token → m Found) :
    Nat → List Token → Token → m Found
  | 0, _, _ => pure (.ok none)
  | n + 1, aliasChain, t =>
    if t ∈ aliasChain then pure (.ok none)
    else do
      match ← q.requestScopedContribution find (← q.collectMultiProviders t) with
      | .error e => pure (.error e)
      | .ok (some r) => pure (.ok (some r))
      | .ok none =>
        match (← q.lookupProvider t).bind NormalizedProvider.useExisting with
        | some target => findRequestScopedMultiContribution find n (t :: aliasChain) target
        | none => pure (.ok none)

/-- What the search does with the provider an alias chain ends in. -/
def Queries.requestScopedEffective (find : Token → m Found) (t : Token) :
    Except DiError (Option NormalizedProvider) → m Found
  | .error e => pure (.error e)
  | .ok (some p) =>
    if p.scope = .request then pure (.ok (some p.provide))
    else q.findRequestScopedDependency find p.inject
  | .ok none =>
    match q.world.getClassDiMetadata t with
    | none => pure (.ok none)
    | some metadata =>
      if metadata.scope = some .request then pure (.ok (some t))
      else q.findRequestScopedDependency find (metadata.inject.getD [])

def Queries.findRequestScopedDependencyToken : Nat → List Token → Token → m Found
  | 0, _, _ => pure (.ok none)
  | n + 1, visited, t =>
    if t ∈ visited then pure (.ok none)
    else do
      let find := findRequestScopedDependencyToken n (t :: visited)
      let multi ← q.findRequestScopedMultiContribution find q.fuel [] t
      match multi with
      | .error e => pure (.error e)
      | .ok (some r) =>
        if r.truthy then pure (.ok (some r))
        else do q.requestScopedEffective find t (← q.resolveEffectiveProvider t)
      | .ok none => do q.requestScopedEffective find t (← q.resolveEffectiveProvider t)

/-- `assertSingletonDependencyScopes`: `none` when it returns. -/
def Queries.assertSingletonDependencyScopes (p : NormalizedProvider) : m (Option DiError) :=
  if p.scope ≠ .singleton then pure none
  else do
    match ← q.findRequestScopedDependency
        (q.findRequestScopedDependencyToken q.fuel [p.provide]) p.inject with
    | .error e => pure (some e)
    | .ok none => pure none
    | .ok (some r) => if r.truthy then pure (some (.scopeMismatch p.provide r)) else pure none

/-! ## Which cached entries depend on an overridden token -/

def Queries.providerDependsOnToken (references : Token → m Bool) (p : NormalizedProvider) : m Bool :=
  match p.useExisting with
  | some target => references target
  | none => anyOf (fun d => references (q.world.resolveProviderDependencyToken d)) p.inject

def Queries.dependencyTokenReferencesToken (overridden : Token) : Nat → List Token → Token → m Bool
  | 0, _, _ => pure false
  | n + 1, visited, t =>
    if t = overridden then pure true
    else if t ∈ visited then pure false
    else do
      let references := dependencyTokenReferencesToken overridden n (t :: visited)
      let provider ← q.lookupProvider t
      let multiProviders ← q.collectMultiProviders t
      if ← anyOf (q.providerDependsOnToken references) provider.toList then pure true
      else anyOf (q.providerDependsOnToken references) multiProviders

def Queries.dependsOn (overridden : Token) (p : NormalizedProvider) : m Bool :=
  q.providerDependsOnToken (q.dependencyTokenReferencesToken overridden q.fuel [p.provide]) p

def Queries.shouldInvalidateCachedToken (cachedToken overridden : Token) : m Bool := do
  if cachedToken = overridden then pure true
  else do
    let provider ← q.lookupProvider cachedToken
    let multiProviders ← q.collectMultiProviders cachedToken
    if ← anyOf (q.dependsOn overridden) provider.toList then pure true
    else anyOf (q.dependsOn overridden) multiProviders

def Queries.shouldInvalidateCachedProvider (p : NormalizedProvider) (overridden : Token) : m Bool := do
  if p.provide = overridden then pure true else q.dependsOn overridden p

end Monadic

/-! ## Reading the registrations directly -/

def View.queries (w : World) (v : View) : Queries Id where
  world := w
  fuel := v.depth w
  lookupProvider := v.lookupProvider
  collectMultiProviders := v.collectMultiProviders
  hasMulti := v.hasMulti
  effectivePlan := fun _ plan => plan

end Fluo.Di
