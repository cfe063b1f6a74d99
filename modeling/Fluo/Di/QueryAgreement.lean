import Fluo.Di.GraphQueries

/-!
# Searches over memoized lookups

When the lookups of a container answer as its registrations do, so does every
search built on them, whatever the lookups do to the state.
-/

namespace Fluo.Di

/-- Stateful queries that answer as the registrations of a view do. -/
structure Queries.Agrees {σ : Type} (I : σ → Prop) (w : World) (v : View)
    (q : Queries (StateM σ)) : Prop where
  world : q.world = w
  fuel : q.fuel = v.depth w
  lookupProvider : ∀ t, Returns I (q.lookupProvider t) (v.lookupProvider t)
  collectMultiProviders : ∀ t, Returns I (q.collectMultiProviders t) (v.collectMultiProviders t)
  hasMulti : ∀ t, Returns I (q.hasMulti t) (v.hasMulti t)
  effectivePlan : ∀ t x, Returns I x ((v.queries w).followAliases (v.depth w) [] t) →
    Returns I (q.effectivePlan t x) ((v.queries w).followAliases (v.depth w) [] t)

namespace Queries.Agrees

variable {σ : Type} {I : σ → Prop} {w : World} {v : View} {q : Queries (StateM σ)}
  (h : q.Agrees I w v)

include h

theorem has (t : Token) : Returns I (q.has t) ((v.queries w).has t) := by
  unfold Queries.has
  rw [h.world]
  exact .bind' (h.lookupProvider _) fun p => .ite (fun _ => .ret true) fun _ => h.hasMulti _

theorem absent (d : InjectionToken) : Returns I (q.absent d) ((v.queries w).absent d) := by
  unfold Queries.absent
  rw [h.world]
  exact .ite (fun _ => .bind' (h.has _) fun b => .ret (!b)) fun _ => .ret false

section RequestScopeVerdict

variable {requires : Token → StateM σ Bool} {requires' : Token → Id Bool}
  (hr : ∀ t, Returns I (requires t) (requires' t))

include hr

theorem dependencyEntry (d : InjectionToken) :
    Returns I (q.dependencyEntryRequiresRequestScope requires d)
      ((v.queries w).dependencyEntryRequiresRequestScope requires' d) := by
  unfold Queries.dependencyEntryRequiresRequestScope
  rw [h.world]
  exact .bind' (h.absent d) fun b => .ite (fun _ => .ret false) fun _ => hr _

theorem unregisteredClass (t : Token) :
    Returns I (q.unregisteredClassRequiresRequestScope requires t)
      ((v.queries w).unregisteredClassRequiresRequestScope requires' t) := by
  unfold Queries.unregisteredClassRequiresRequestScope
  rw [h.world, show (v.queries w).world = w from rfl]
  cases w.getClassDiMetadata t with
  | none => exact .ret false
  | some metadata =>
    exact .ite (fun _ => .ret true) fun _ => .anyOf (h.dependencyEntry hr) _

theorem normalizedProvider (p : NormalizedProvider) :
    Returns I (q.normalizedProviderRequiresRequestScope requires p)
      ((v.queries w).normalizedProviderRequiresRequestScope requires' p) := by
  unfold Queries.normalizedProviderRequiresRequestScope
  refine .ite (fun _ => .ret true) fun _ => ?_
  cases p.useExisting with
  | none => exact .anyOf (h.dependencyEntry hr) _
  | some target => exact hr target

end RequestScopeVerdict

theorem providerGraph (n : Nat) (visited : List Token) (t : Token) :
    Returns I (q.providerGraphRequiresRequestScope n visited t)
      ((v.queries w).providerGraphRequiresRequestScope n visited t) := by
  induction n generalizing visited t with
  | zero => exact .ret true
  | succ n ih =>
    have requires := ih (t :: visited)
    unfold Queries.providerGraphRequiresRequestScope
    refine .ite (fun _ => .ret true) fun _ => ?_
    refine .bind' (h.lookupProvider t) fun provider => ?_
    refine .bind' (h.collectMultiProviders t) fun multiProviders => ?_
    refine .ite (fun _ => h.unregisteredClass requires t) fun _ => ?_
    refine .bind' (.anyOf (h.normalizedProvider requires) _) fun b => ?_
    exact .ite (fun _ => .ret true) fun _ => .anyOf (h.normalizedProvider requires) _

theorem followAliases (n : Nat) (chain : List Token) (t : Token) :
    Returns I (q.followAliases n chain t) ((v.queries w).followAliases n chain t) := by
  induction n generalizing chain t with
  | zero => exact .ret _
  | succ n ih =>
    unfold Queries.followAliases
    refine .ite (fun _ => .ret _) fun _ => .bind' (h.lookupProvider t) fun provider => ?_
    cases provider with
    | none => exact .ret _
    | some p =>
      dsimp only
      cases p.useExisting with
      | none => exact .ret _
      | some target => exact ih (t :: chain) target

theorem resolveEffectiveProvider (t : Token) :
    Returns I (q.resolveEffectiveProvider t) ((v.queries w).resolveEffectiveProvider t) := by
  unfold Queries.resolveEffectiveProvider
  refine h.effectivePlan t _ ?_
  rw [h.fuel]
  exact h.followAliases _ _ t

section ScopeAssertion

variable {find : Token → StateM σ Found} {find' : Token → Id Found}
  (hf : ∀ t, Returns I (find t) (find' t))

include hf

theorem findRequestScopedDependency (ds : List InjectionToken) :
    Returns I (q.findRequestScopedDependency find ds)
      ((v.queries w).findRequestScopedDependency find' ds) := by
  induction ds with
  | nil => exact .ret _
  | cons d rest ih =>
    unfold Queries.findRequestScopedDependency
    rw [h.world]
    refine .bind' (h.absent d) fun b => .ite (fun _ => ih) fun _ => .bind' (hf _) fun found => ?_
    rcases found with e | r | r
    · exact .ret _
    · exact ih
    · exact .ite (fun _ => .ret _) fun _ => ih

theorem requestScopedContribution (ps : List NormalizedProvider) :
    Returns I (q.requestScopedContribution find ps)
      ((v.queries w).requestScopedContribution find' ps) := by
  induction ps with
  | nil => exact .ret _
  | cons p rest ih =>
    unfold Queries.requestScopedContribution
    refine .ite (fun _ => .ret _) fun _ => ?_
    dsimp only
    cases p.useExisting with
    | none =>
      refine .bind' (h.findRequestScopedDependency hf _) fun found => ?_
      rcases found with e | r | r
      · exact .ret _
      · exact ih
      · exact .ite (fun _ => .ret _) fun _ => ih
    | some target =>
      refine .bind' (hf target) fun found => ?_
      rcases found with e | r | r
      · exact .ret _
      · exact ih
      · exact .ite (fun _ => .ret _) fun _ => ih

theorem findRequestScopedMultiContribution (n : Nat) (aliasChain : List Token) (t : Token) :
    Returns I (q.findRequestScopedMultiContribution find n aliasChain t)
      ((v.queries w).findRequestScopedMultiContribution find' n aliasChain t) := by
  induction n generalizing aliasChain t with
  | zero => exact .ret _
  | succ n ih =>
    unfold Queries.findRequestScopedMultiContribution
    refine .ite (fun _ => .ret _) fun _ => .bind' (h.collectMultiProviders t) fun multiProviders => ?_
    refine .bind' (h.requestScopedContribution hf _) fun found => ?_
    rcases found with e | r | r
    · exact .ret _
    · refine .bind' (h.lookupProvider t) fun aliasProvider => ?_
      cases aliasProvider.bind NormalizedProvider.useExisting with
      | none => exact .ret _
      | some target => exact ih (t :: aliasChain) target
    · exact .ret _

theorem requestScopedEffective (t : Token) (effective : Except DiError (Option NormalizedProvider)) :
    Returns I (q.requestScopedEffective find t effective)
      ((v.queries w).requestScopedEffective find' t effective) := by
  unfold Queries.requestScopedEffective
  rcases effective with e | p | p
  · exact .ret _
  · rw [h.world, show (v.queries w).world = w from rfl]
    cases w.getClassDiMetadata t with
    | none => exact .ret _
    | some metadata =>
      exact .ite (fun _ => .ret _) fun _ => h.findRequestScopedDependency hf _
  · exact .ite (fun _ => .ret _) fun _ => h.findRequestScopedDependency hf _

end ScopeAssertion

theorem findRequestScopedDependencyToken (n : Nat) (visited : List Token) (t : Token) :
    Returns I (q.findRequestScopedDependencyToken n visited t)
      ((v.queries w).findRequestScopedDependencyToken n visited t) := by
  induction n generalizing visited t with
  | zero => exact .ret _
  | succ n ih =>
    have find := ih (t :: visited)
    have effective : Returns I
        (q.resolveEffectiveProvider t >>= q.requestScopedEffective
          (q.findRequestScopedDependencyToken n (t :: visited)) t)
        (@bind Id _ _ _ ((v.queries w).resolveEffectiveProvider t)
          ((v.queries w).requestScopedEffective
            ((v.queries w).findRequestScopedDependencyToken n (t :: visited)) t)) :=
      .bind' (h.resolveEffectiveProvider t) (h.requestScopedEffective find t)
    unfold Queries.findRequestScopedDependencyToken
    refine .ite (fun _ => .ret _) fun _ => ?_
    rw [h.fuel]
    refine .bind' (h.findRequestScopedMultiContribution find _ _ t) fun multi => ?_
    rcases multi with e | r | r
    · exact .ret _
    · exact effective
    · exact .ite (fun _ => .ret _) fun _ => effective

theorem assertSingletonDependencyScopes (p : NormalizedProvider) :
    Returns I (q.assertSingletonDependencyScopes p)
      ((v.queries w).assertSingletonDependencyScopes p) := by
  unfold Queries.assertSingletonDependencyScopes
  refine .ite (fun _ => .ret none) fun _ => ?_
  rw [h.fuel]
  refine .bind' (h.findRequestScopedDependency (h.findRequestScopedDependencyToken _ _) _)
    fun found => ?_
  rcases found with e | r | r
  · exact .ret (some e)
  · exact .ret none
  · exact .ite (fun _ => .ret _) fun _ => .ret none

theorem providerDependsOnToken {references : Token → StateM σ Bool} {references' : Token → Id Bool}
    (hr : ∀ t, Returns I (references t) (references' t)) (p : NormalizedProvider) :
    Returns I (q.providerDependsOnToken references p)
      ((v.queries w).providerDependsOnToken references' p) := by
  unfold Queries.providerDependsOnToken
  rw [h.world]
  cases p.useExisting with
  | none => exact .anyOf (fun d => hr _) _
  | some target => exact hr target

theorem dependencyTokenReferencesToken (overridden : Token) (n : Nat) (visited : List Token)
    (t : Token) :
    Returns I (q.dependencyTokenReferencesToken overridden n visited t)
      ((v.queries w).dependencyTokenReferencesToken overridden n visited t) := by
  induction n generalizing visited t with
  | zero => exact .ret false
  | succ n ih =>
    have references := h.providerDependsOnToken (ih (t :: visited))
    unfold Queries.dependencyTokenReferencesToken
    refine .ite (fun _ => .ret true) fun _ => .ite (fun _ => .ret false) fun _ => ?_
    refine .bind' (h.lookupProvider t) fun provider => ?_
    refine .bind' (h.collectMultiProviders t) fun multiProviders => ?_
    refine .bind' (.anyOf references _) fun b => ?_
    exact .ite (fun _ => .ret true) fun _ => .anyOf references _

theorem dependsOn (overridden : Token) (p : NormalizedProvider) :
    Returns I (q.dependsOn overridden p) ((v.queries w).dependsOn overridden p) := by
  unfold Queries.dependsOn
  rw [h.fuel]
  exact h.providerDependsOnToken (h.dependencyTokenReferencesToken overridden _ _) p

theorem shouldInvalidateCachedToken (cachedToken overridden : Token) :
    Returns I (q.shouldInvalidateCachedToken cachedToken overridden)
      ((v.queries w).shouldInvalidateCachedToken cachedToken overridden) := by
  unfold Queries.shouldInvalidateCachedToken
  refine .ite (fun _ => .ret true) fun _ => ?_
  refine .bind' (h.lookupProvider _) fun provider => ?_
  refine .bind' (h.collectMultiProviders _) fun multiProviders => ?_
  refine .bind' (.anyOf (h.dependsOn overridden) _) fun b => ?_
  exact .ite (fun _ => .ret true) fun _ => .anyOf (h.dependsOn overridden) _

theorem shouldInvalidateCachedProvider (p : NormalizedProvider) (overridden : Token) :
    Returns I (q.shouldInvalidateCachedProvider p overridden)
      ((v.queries w).shouldInvalidateCachedProvider p overridden) := by
  unfold Queries.shouldInvalidateCachedProvider
  exact .ite (fun _ => .ret true) fun _ => h.dependsOn overridden p

end Queries.Agrees

end Fluo.Di
