import Fluo.Di.PlanCache
import Fluo.Di.QueryAgreement

/-!
# The plan caches are transparent

A plan whose lineage revision is still the current one holds what the
registrations say now. `Sound` says so for every stored plan, together with
the bound that makes it survive mutations: no stored revision is ahead of the
counters, so bumping one counter of a lineage makes every plan below it stale.
-/

namespace Fluo.Di

namespace PlanTree

variable (w : World)

/-- The answer of a query, computed from registrations only. -/
def Recomputes (v : View) : (k : PlanKind) → Token → k.Answer → Prop
  | .providerLookup, t, a => a = v.lookupProvider t
  | .multiProvider, t, a => a = v.collectMultiProviders t
  | .requestScopeVerdict, t, a =>
    a = (v.queries w).providerGraphRequiresRequestScope (v.depth w) [] t
  | .effectiveProvider, t, a => (v.queries w).followAliases (v.depth w) [] t = Except.ok a

structure Sound (s : PlanTree) : Prop where
  ancestors_lt : ∀ c, ∀ d ∈ (s.scopes.get c).ancestors, d < s.scopes.size
  chained : ∀ c p up, (s.scopes.get c).ancestors = p :: up → (s.scopes.get p).ancestors = up
  behind : ∀ c k t plan, ((s.scopes.get c).plans k).get t = some plan →
    List.Forall₂ (· ≤ ·) plan.lineageRevision (s.lineageRevision (s.lineage c))
  current : ∀ c k t plan, ((s.scopes.get c).plans k).get t = some plan →
    plan.lineageRevision = s.lineageRevision (s.lineage c) →
    Recomputes w (s.view (s.lineage c)) k t plan.value
  reads : ∀ r ∈ s.reads, Recomputes w r.view r.kind r.token r.answer

/-- Two trees that differ in what their plan caches hold only. -/
structure Same (s s' : PlanTree) : Prop where
  nextRef : s.nextRef = s'.nextRef
  size : s.scopes.size = s'.scopes.size
  ancestors : ∀ c, (s.scopes.get c).ancestors = (s'.scopes.get c).ancestors
  registry : ∀ c, (s.scopes.get c).registry = (s'.scopes.get c).registry
  graphRevision : ∀ c, (s.scopes.get c).graphRevision = (s'.scopes.get c).graphRevision
  disposed : ∀ c, (s.scopes.get c).disposed = (s'.scopes.get c).disposed

variable {w}

namespace Same

variable {s s' s'' : PlanTree}

theorem rfl' (s : PlanTree) : s.Same s := ⟨rfl, rfl, fun _ => rfl, fun _ => rfl, fun _ => rfl, fun _ => rfl⟩

theorem symm (h : s.Same s') : s'.Same s :=
  ⟨h.1.symm, h.2.symm, fun c => (h.3 c).symm, fun c => (h.4 c).symm, fun c => (h.5 c).symm,
    fun c => (h.6 c).symm⟩

theorem trans (h : s.Same s') (h' : s'.Same s'') : s.Same s'' :=
  ⟨h.1.trans h'.1, h.2.trans h'.2, fun c => (h.3 c).trans (h'.3 c), fun c => (h.4 c).trans (h'.4 c),
    fun c => (h.5 c).trans (h'.5 c), fun c => (h.6 c).trans (h'.6 c)⟩

theorem lineage (h : s.Same s') (c : Nat) : s.lineage c = s'.lineage c := by
  simp only [PlanTree.lineage, h.ancestors]

theorem view (h : s.Same s') (up : List Nat) : s.view up = s'.view up := by
  simp only [PlanTree.view, h.registry]

theorem lineageRevision (h : s.Same s') (up : List Nat) :
    s.lineageRevision up = s'.lineageRevision up := by
  simp only [PlanTree.lineageRevision, h.graphRevision]

theorem isDisposedInHierarchy (h : s.Same s') (c : Nat) :
    s.isDisposedInHierarchy c = s'.isDisposedInHierarchy c := by
  simp only [PlanTree.isDisposedInHierarchy, h.lineage, h.disposed]

end Same

/-! ## Reading and writing one plan -/

/-- `up` is a scope with all its ancestors. -/
def IsLineage (s : PlanTree) (up : List Nat) : Prop :=
  ∀ c parent, up = c :: parent → (s.scopes.get c).ancestors = parent

theorem IsLineage.lineage (s : PlanTree) (c : Nat) : s.IsLineage (s.lineage c) := by
  intro d parent h
  cases h
  rfl

theorem IsLineage.parent {s : PlanTree} (hs : s.Sound w) {c : Nat} {parent : List Nat}
    (h : s.IsLineage (c :: parent)) : s.IsLineage parent := by
  intro p up e
  exact hs.chained c p up ((h c parent rfl).trans e)

/-- What every query keeps: soundness, and everything but plans. -/
def Kept (w : World) (s₀ s : PlanTree) : Prop := s.Sound w ∧ s.Same s₀

theorem putPlan_same (s : PlanTree) (c : Nat) (k : PlanKind) (t : Token)
    (plan : CachedResolutionPlan k.Answer) :
    PlanTree.Same { s with scopes := s.scopes.modify c fun x => x.putPlan k t plan } s where
  nextRef := rfl
  size := rfl
  ancestors := Heap.get_modify_proj s.scopes c (fun x => x.putPlan k t plan) PlanScope.ancestors rfl
  registry := Heap.get_modify_proj s.scopes c (fun x => x.putPlan k t plan) PlanScope.registry rfl
  graphRevision := Heap.get_modify_proj s.scopes c (fun x => x.putPlan k t plan) PlanScope.graphRevision rfl
  disposed := Heap.get_modify_proj s.scopes c (fun x => x.putPlan k t plan) PlanScope.disposed rfl

theorem get_putPlan {s : PlanTree} {c d : Nat} {k j : PlanKind} {t u : Token}
    {plan : CachedResolutionPlan k.Answer} {plan' : CachedResolutionPlan j.Answer}
    (h : ((((s.scopes.modify c fun x => x.putPlan k t plan)).get d).plans j).get u = some plan') :
    ((s.scopes.get d).plans j).get u = some plan' ∨
      d = c ∧ u = t ∧ ∃ e : j = k, e ▸ plan' = plan := by
  rw [Heap.get_modify] at h
  split at h
  · rename_i hd
    subst hd
    by_cases hk : j = k
    · subst hk
      simp only [PlanScope.putPlan, Function.update_self, OrderedMap.get_set] at h
      split at h
      · rename_i hu
        exact .inr ⟨rfl, hu, rfl, (Option.some.inj h).symm⟩
      · exact .inl h
    · simp only [PlanScope.putPlan, Function.update_of_ne hk] at h
      exact .inl h
  · exact .inl h

/-- Storing the right answer under the current revision keeps the caches sound. -/
theorem Sound.putPlan {s : PlanTree} (hs : s.Sound w) {c : Nat} {k : PlanKind} {t : Token}
    {a : k.Answer} (ha : Recomputes w (s.view (s.lineage c)) k t a) :
    PlanTree.Sound w { s with
      scopes := s.scopes.modify c fun x => x.putPlan k t ⟨s.lineageRevision (s.lineage c), a⟩ } := by
  have same := putPlan_same s c k t ⟨s.lineageRevision (s.lineage c), a⟩
  constructor
  · intro d e he
    rw [same.ancestors] at he
    exact hs.ancestors_lt d e he
  · intro d p up h
    rw [same.ancestors] at h ⊢
    exact hs.chained d p up h
  · intro d j u plan h
    rw [same.lineage, same.lineageRevision]
    rcases get_putPlan h with h | ⟨rfl, rfl, rfl, rfl⟩
    · exact hs.behind d j u plan h
    · exact List.forall₂_same.mpr fun _ _ => Nat.le_refl _
  · intro d j u plan h hr
    rw [same.lineage, same.lineageRevision] at hr
    rw [same.lineage, same.view]
    rcases get_putPlan h with h | ⟨rfl, rfl, rfl, rfl⟩
    · exact hs.current d j u plan h hr
    · exact ha
  · exact hs.reads

theorem returns_write {s₀ : PlanTree} {up : List Nat} (hup : s₀.IsLineage up) {k : PlanKind}
    {t : Token} {a : k.Answer} (ha : Recomputes w (s₀.view up) k t a) :
    Returns (Kept w s₀) (writePlanCache k up t a) a := by
  rintro s ⟨hs, same⟩
  cases up with
  | nil => exact ⟨rfl, hs, same⟩
  | cons c parent =>
    have hl : s.lineage c = c :: parent := by
      rw [same.lineage]
      exact congrArg (c :: ·) (hup c parent rfl)
    have put := hs.putPlan (c := c) (t := t) (a := a)
      (by rw [same.view, hl]; exact ha)
    rw [hl] at put
    exact ⟨rfl, put, (putPlan_same s c k t _).trans same⟩

theorem read_kept {s₀ : PlanTree} {up : List Nat} (hup : s₀.IsLineage up) (k : PlanKind) (t : Token)
    {s : PlanTree} (hs : Kept w s₀ s) :
    (∀ a, (readCachedPlan k up t s).1 = some a → Recomputes w (s₀.view up) k t a) ∧
      Kept w s₀ (readCachedPlan k up t s).2 := by
  obtain ⟨hs, same⟩ := hs
  cases up with
  | nil => exact ⟨by simp [readCachedPlan], hs, same⟩
  | cons c parent =>
    have hl : s.lineage c = c :: parent := by
      rw [same.lineage]
      exact congrArg (c :: ·) (hup c parent rfl)
    simp only [readCachedPlan]
    split
    · exact ⟨by simp, hs, same⟩
    · rename_i plan hplan
      split
      · rename_i hc
        have right : Recomputes w (s.view (c :: parent)) k t plan.value := by
          rw [← hl]
          exact hs.current c k t plan hplan (by rw [hl]; exact hc.2)
        refine ⟨?_, ⟨hs.1, hs.2, hs.3, hs.4, ?_⟩, same.1, same.2, same.3, same.4, same.5, same.6⟩
        · intro a e
          cases e
          rw [← same.view]
          exact right
        · intro r hr
          rcases List.mem_cons.mp hr with rfl | hr
          · exact right
          · exact hs.reads r hr
      · exact ⟨by simp, hs, same⟩

/-- A memoized query: what it does with a plan, and what without. -/
theorem returns_read {α : Type} {s₀ : PlanTree} {up : List Nat} (hup : s₀.IsLineage up)
    {k : PlanKind} {t : Token} {f : Option k.Answer → StateM PlanTree α} {b : α}
    (hit : ∀ a, Recomputes w (s₀.view up) k t a → Returns (Kept w s₀) (f (some a)) b)
    (miss : Returns (Kept w s₀) (f none) b) :
    Returns (Kept w s₀) (readCachedPlan k up t >>= f) b := by
  intro s hs
  obtain ⟨hread, hkept⟩ := read_kept hup k t hs
  change (f (readCachedPlan k up t s).1 (readCachedPlan k up t s).2).1 = b ∧
    Kept w s₀ (f (readCachedPlan k up t s).1 (readCachedPlan k up t s).2).2
  cases h : (readCachedPlan k up t s).1 with
  | none => exact miss _ hkept
  | some a => exact hit a (hread a h) _ hkept

/-! ## The four memoized queries -/

section Queries

variable {s₀ : PlanTree} {up : List Nat}

theorem returns_ownRegistration (c : Nat) (t : Token) :
    Returns (Kept w s₀) (ownRegistration c t) ((s₀.scopes.get c).registry.registrations.get t) :=
  fun _ hs => ⟨by rw [← hs.2.registry]; rfl, hs⟩

theorem returns_ownContributions (c : Nat) (t : Token) :
    Returns (Kept w s₀) (ownContributions c t)
      (((s₀.scopes.get c).registry.multiRegistrations.get t).getD [],
        decide (t ∈ (s₀.scopes.get c).registry.multiOverriddenTokens)) :=
  fun _ hs => ⟨by rw [← hs.2.registry]; rfl, hs⟩

theorem returns_lookupProvider (hs₀ : s₀.Sound w) (hup : s₀.IsLineage up) (t : Token) :
    Returns (Kept w s₀) (lookupProvider up t) ((s₀.view up).lookupProvider t) := by
  induction up with
  | nil => exact .ret none
  | cons c parent ih =>
    unfold lookupProvider
    refine returns_read hup (fun a ha => ?_) ?_
    · rw [← show a = _ from ha]
      exact .ret a
    · refine .bind (returns_ownRegistration c t) ?_
      have write : ∀ p, p = (s₀.view (c :: parent)).lookupProvider t →
          Returns (Kept w s₀) (writePlanCache .providerLookup (c :: parent) t p)
            ((s₀.view (c :: parent)).lookupProvider t) := by
        rintro p rfl
        exact returns_write hup rfl
      dsimp only
      cases hown : (s₀.scopes.get c).registry.registrations.get t with
      | some p => exact .bind (.ret (some p)) (write _ (by simp [view, View.lookupProvider, hown]))
      | none =>
        refine .bind (ih (hup.parent hs₀)) (write _ ?_)
        simp [view, View.lookupProvider, hown]

theorem returns_collectMultiProviders (hs₀ : s₀.Sound w) (hup : s₀.IsLineage up) (t : Token) :
    Returns (Kept w s₀) (collectMultiProviders up t) ((s₀.view up).collectMultiProviders t) := by
  induction up with
  | nil => exact .ret []
  | cons c parent ih =>
    unfold collectMultiProviders
    refine returns_read hup (fun a ha => ?_) ?_
    · rw [← show a = _ from ha]
      exact .ret a
    · refine .bind (returns_ownContributions c t) ?_
      have write : ∀ ps, ps = (s₀.view (c :: parent)).collectMultiProviders t →
          Returns (Kept w s₀) (writePlanCache .multiProvider (c :: parent) t ps)
            ((s₀.view (c :: parent)).collectMultiProviders t) := by
        rintro ps rfl
        exact returns_write hup rfl
      by_cases hover : t ∈ (s₀.scopes.get c).registry.multiOverriddenTokens
      · simp only [hover, decide_true, ↓reduceIte]
        exact .bind (.ret _) (write _ (by simp [view, View.collectMultiProviders, hover]))
      · simp only [hover, decide_false, Bool.false_eq_true, ↓reduceIte]
        refine .bind (.map _ (ih (hup.parent hs₀))) (write _ ?_)
        simp [view, View.collectMultiProviders, hover]

theorem returns_hasMulti (t : Token) :
    Returns (Kept w s₀) (hasMulti up t) ((s₀.view up).hasMulti t) :=
  fun _ hs => ⟨by rw [← hs.2.view]; rfl, hs⟩

theorem returns_effectivePlan (hup : s₀.IsLineage up) (t : Token)
    {follow : StateM PlanTree (Except DiError (Option NormalizedProvider))}
    {a : Except DiError (Option NormalizedProvider)} (hfollow : Returns (Kept w s₀) follow a)
    (ha : ((s₀.view up).queries w).followAliases ((s₀.view up).depth w) [] t = a) :
    Returns (Kept w s₀) (effectivePlan up t follow) a := by
  unfold effectivePlan
  refine returns_read hup (fun p hp => ?_) (.bind hfollow ?_)
  · rw [← ha, show _ = Except.ok p from hp]
    exact .ret _
  · cases a with
    | error e => exact .ret _
    | ok p => exact .bind (returns_write hup ha) (.ret _)

theorem queries_agree (hs₀ : s₀.Sound w) (hup : s₀.IsLineage up) :
    (queries w ((s₀.view up).depth w) up).Agrees (Kept w s₀) w (s₀.view up) where
  world := rfl
  fuel := rfl
  lookupProvider := returns_lookupProvider hs₀ hup
  collectMultiProviders := returns_collectMultiProviders hs₀ hup
  hasMulti := returns_hasMulti
  effectivePlan t _ hfollow := returns_effectivePlan hup t hfollow rfl

theorem returns_hasRequestScopedDependency (hs₀ : s₀.Sound w) (hup : s₀.IsLineage up)
    (t : Token) :
    Returns (Kept w s₀) (hasRequestScopedDependency w ((s₀.view up).depth w) up t)
      (((s₀.view up).queries w).providerGraphRequiresRequestScope ((s₀.view up).depth w) []
        (w.normalizeFrameworkServiceToken t)) := by
  unfold hasRequestScopedDependency
  dsimp only
  refine returns_read hup (fun a ha => ?_) ?_
  · rw [← show a = _ from ha]
    exact .ret a
  · exact .bind ((queries_agree hs₀ hup).providerGraph _ _ _) (returns_write hup rfl)

end Queries

/-- What a query answers when nothing is memoized. -/
def Query.recompute (w : World) (v : View) (q : Query) : Answer :=
  q.run (v.queries w) fun t =>
    (v.queries w).providerGraphRequiresRequestScope (v.depth w) [] (w.normalizeFrameworkServiceToken t)

theorem returns_ask {s₀ : PlanTree} (hs₀ : s₀.Sound w) (c : Nat) (q : Query) :
    Returns (Kept w s₀) (ask w c q) (q.recompute w (s₀.view (s₀.lineage c))) := by
  have hup := IsLineage.lineage s₀ c
  have agree := queries_agree hs₀ hup
  have run : Returns (Kept w s₀) (q.run (queries w ((s₀.view (s₀.lineage c)).depth w) (s₀.lineage c))
      (hasRequestScopedDependency w ((s₀.view (s₀.lineage c)).depth w) (s₀.lineage c)))
      (q.recompute w (s₀.view (s₀.lineage c))) := by
    cases q with
    | lookupProvider t => exact .bind (agree.lookupProvider t) (.ret _)
    | collectMultiProviders t => exact .bind (agree.collectMultiProviders t) (.ret _)
    | has t => exact .bind (agree.has t) (.ret _)
    | hasRequestScopedDependency t =>
      exact .bind (returns_hasRequestScopedDependency hs₀ hup t) (.ret _)
    | assertSingletonDependencyScopes p =>
      exact .bind (agree.assertSingletonDependencyScopes p) (.ret _)
    | shouldInvalidateCachedToken t o =>
      exact .bind (agree.shouldInvalidateCachedToken t o) (.ret _)
    | shouldInvalidateCachedProvider p o =>
      exact .bind (agree.shouldInvalidateCachedProvider p o) (.ret _)
  intro s hs
  have := run s hs
  rwa [← hs.2.lineage, ← hs.2.view] at this ⊢

/-! ## Mutations make the plans below them stale -/

theorem Sound.mutate {s : PlanTree} (hs : s.Sound w) (c : Nat) (f : PlanScope → PlanScope)
    (hanc : ∀ x, (f x).ancestors = x.ancestors) (hrev : ∀ x, (f x).graphRevision = x.graphRevision) :
    (advanceGraphRevision c { s with scopes := s.scopes.modify c f }).Sound w := by
  set s' := advanceGraphRevision c { s with scopes := s.scopes.modify c f } with hs'
  have get_ne : ∀ d, d ≠ c → s'.scopes.get d = s.scopes.get d := by
    intro d hd
    simp [hs', advanceGraphRevision, clearResolutionPlanCaches, Heap.get_modify_ne _ _ hd]
  have get_plans : ∀ k, (s'.scopes.get c).plans k = OrderedMap.empty := by
    intro k
    simp [hs', advanceGraphRevision, clearResolutionPlanCaches]
  have rev_self : (s'.scopes.get c).graphRevision = (s.scopes.get c).graphRevision + 1 := by
    simp [hs', advanceGraphRevision, clearResolutionPlanCaches, hrev]
  have anc : ∀ d, (s'.scopes.get d).ancestors = (s.scopes.get d).ancestors := by
    intro d
    by_cases hd : d = c
    · subst hd
      simp [hs', advanceGraphRevision, clearResolutionPlanCaches, hanc]
    · rw [get_ne d hd]
  have lin : ∀ d, s'.lineage d = s.lineage d := fun d => congrArg (d :: ·) (anc d)
  have rev_le : ∀ d, (s.scopes.get d).graphRevision ≤ (s'.scopes.get d).graphRevision := by
    intro d
    by_cases hd : d = c
    · subst hd
      omega
    · exact Nat.le_of_eq (by rw [get_ne d hd])
  have stored : ∀ d k t plan, ((s'.scopes.get d).plans k).get t = some plan →
      d ≠ c ∧ ((s.scopes.get d).plans k).get t = some plan := by
    intro d k t plan h
    by_cases hd : d = c
    · subst hd
      simp [get_plans] at h
    · rw [get_ne d hd] at h
      exact ⟨hd, h⟩
  constructor
  · intro d e he
    rw [anc] at he
    exact hs.ancestors_lt d e he
  · intro d p up h
    rw [anc] at h ⊢
    exact hs.chained d p up h
  · intro d k t plan h
    rw [lin]
    have bound := hs.behind d k t plan (stored d k t plan h).2
    rw [lineageRevision, List.forall₂_map_right_iff] at bound ⊢
    exact bound.imp fun _ e he => Nat.le_trans he (rev_le e)
  · intro d k t plan h hr
    obtain ⟨-, hplan⟩ := stored d k t plan h
    rw [lin] at hr ⊢
    -- the revision of `c` went up, so a plan that is current does not see `c`
    have hc : c ∉ s.lineage d := by
      intro hc
      have bound := hs.behind d k t plan hplan
      rw [hr, lineageRevision, lineageRevision, List.forall₂_map_left_iff,
        List.forall₂_map_right_iff, List.forall₂_same] at bound
      have := bound c hc
      omega
    have unchanged : ∀ e ∈ s.lineage d, s'.scopes.get e = s.scopes.get e :=
      fun e he => get_ne e fun h => hc (h ▸ he)
    have hview : s'.view (s.lineage d) = s.view (s.lineage d) :=
      List.map_congr_left fun e he => by rw [unchanged e he]
    have hrevs : s'.lineageRevision (s.lineage d) = s.lineageRevision (s.lineage d) :=
      List.map_congr_left fun e he => by rw [unchanged e he]
    rw [hview]
    exact hs.current d k t plan hplan (hr.trans hrevs)
  · exact hs.reads

theorem Sound.clear {s : PlanTree} (hs : s.Sound w) (c : Nat) :
    (clearResolutionPlanCaches c s).Sound w := by
  have same : (clearResolutionPlanCaches c s).Same s :=
    ⟨rfl, rfl, Heap.get_modify_proj s.scopes c (fun x => { x with plans := _ }) PlanScope.ancestors rfl,
      Heap.get_modify_proj s.scopes c (fun x => { x with plans := _ }) PlanScope.registry rfl,
      Heap.get_modify_proj s.scopes c (fun x => { x with plans := _ }) PlanScope.graphRevision rfl,
      Heap.get_modify_proj s.scopes c (fun x => { x with plans := _ }) PlanScope.disposed rfl⟩
  have stored : ∀ d k t plan,
      (((clearResolutionPlanCaches c s).scopes.get d).plans k).get t = some plan →
      ((s.scopes.get d).plans k).get t = some plan := by
    intro d k t plan h
    simp only [clearResolutionPlanCaches, Heap.get_modify] at h
    split at h
    · simp at h
    · exact h
  constructor
  · intro d e he
    rw [same.ancestors] at he
    exact hs.ancestors_lt d e he
  · intro d p up h
    rw [same.ancestors] at h ⊢
    exact hs.chained d p up h
  · intro d k t plan h
    rw [same.lineage, same.lineageRevision]
    exact hs.behind d k t plan (stored d k t plan h)
  · intro d k t plan h hr
    rw [same.lineage, same.lineageRevision] at hr
    rw [same.lineage, same.view]
    exact hs.current d k t plan (stored d k t plan h) hr
  · exact hs.reads

/-- A new scope has no plans, and is nobody's ancestor yet. -/
theorem Sound.push {s : PlanTree} (hs : s.Sound w) {c : Nat} (hc : c < s.scopes.size) :
    PlanTree.Sound w { s with
      scopes := s.scopes.push { (default : PlanScope) with ancestors := s.lineage c } } := by
  set child : PlanScope := { (default : PlanScope) with ancestors := s.lineage c } with hchild
  have lineage_lt : ∀ d ∈ s.lineage c, d < s.scopes.size := by
    intro d hd
    rcases List.mem_cons.mp hd with rfl | hd
    · exact hc
    · exact hs.ancestors_lt c d hd
  have old : ∀ {d}, d ≠ s.scopes.size → (s.scopes.push child).get d = s.scopes.get d := by
    intro d hd
    simp [Heap.get_push, hd]
  have stored : ∀ d k t plan, (((s.scopes.push child).get d).plans k).get t = some plan →
      d ≠ s.scopes.size ∧ ((s.scopes.get d).plans k).get t = some plan := by
    intro d k t plan h
    by_cases hd : d = s.scopes.size
    · subst hd
      simp [hchild, default] at h
    · rw [old hd] at h
      exact ⟨hd, h⟩
  have lin : ∀ {d}, d ≠ s.scopes.size →
      PlanTree.lineage { s with scopes := s.scopes.push child } d = s.lineage d := by
    intro d hd
    simp only [lineage, old hd]
  have fresh : ∀ {d}, d ≠ s.scopes.size → ∀ e ∈ s.lineage d,
      (s.scopes.push child).get e = s.scopes.get e := by
    intro d hd e he
    refine old ?_
    rcases List.mem_cons.mp he with rfl | he
    · exact hd
    · exact Nat.ne_of_lt (hs.ancestors_lt d e he)
  have hrevs : ∀ {d}, d ≠ s.scopes.size →
      PlanTree.lineageRevision { s with scopes := s.scopes.push child } (s.lineage d) =
        s.lineageRevision (s.lineage d) :=
    fun hd => List.map_congr_left fun e he => congrArg PlanScope.graphRevision (fresh hd e he)
  constructor
  · intro d e he
    by_cases hd : d = s.scopes.size
    · subst hd
      simp only [Heap.get_push_self, hchild] at he
      exact Nat.lt_succ_of_lt (lineage_lt e he)
    · simp only [old hd] at he
      exact Nat.lt_succ_of_lt (hs.ancestors_lt d e he)
  · intro d p up h
    by_cases hd : d = s.scopes.size
    · subst hd
      simp only [Heap.get_push_self, hchild, lineage, List.cons.injEq] at h
      obtain ⟨rfl, h⟩ := h
      simpa only [old (Nat.ne_of_lt hc)] using h
    · simp only [old hd] at h
      have hp : p < s.scopes.size := hs.ancestors_lt d p (by rw [h]; exact List.mem_cons_self)
      simpa only [old (Nat.ne_of_lt hp)] using hs.chained d p up h
  · intro d k t plan h
    obtain ⟨hd, hplan⟩ := stored d k t plan h
    rw [lin hd, hrevs hd]
    exact hs.behind d k t plan hplan
  · intro d k t plan h hr
    obtain ⟨hd, hplan⟩ := stored d k t plan h
    have hview : PlanTree.view { s with scopes := s.scopes.push child } (s.lineage d) =
        s.view (s.lineage d) :=
      List.map_congr_left fun e he => congrArg PlanScope.registry (fresh hd e he)
    rw [lin hd, hrevs hd] at hr
    rw [lin hd, hview]
    exact hs.current d k t plan hplan hr
  · exact hs.reads

theorem Same.modify {s s' : PlanTree} (h : s.Same s') (c : Nat) {f : PlanScope → PlanScope}
    (hf : ∀ x x', x.ancestors = x'.ancestors → x.registry = x'.registry →
      x.graphRevision = x'.graphRevision → x.disposed = x'.disposed →
      (f x).ancestors = (f x').ancestors ∧ (f x).registry = (f x').registry ∧
        (f x).graphRevision = (f x').graphRevision ∧ (f x).disposed = (f x').disposed) :
    PlanTree.Same { s with scopes := s.scopes.modify c f } { s' with scopes := s'.scopes.modify c f } := by
  have cell := hf _ _ (h.ancestors c) (h.registry c) (h.graphRevision c) (h.disposed c)
  refine ⟨h.nextRef, h.size, ?_, ?_, ?_, ?_⟩ <;> intro d <;> simp only [Heap.get_modify] <;> split
  · exact cell.1
  · exact h.ancestors d
  · exact cell.2.1
  · exact h.registry d
  · exact cell.2.2.1
  · exact h.graphRevision d
  · exact cell.2.2.2
  · exact h.disposed d

theorem Same.clear {s s' : PlanTree} (h : s.Same s') (c : Nat) :
    (clearResolutionPlanCaches c s).Same (clearResolutionPlanCaches c s') :=
  h.modify c fun _ _ h₁ h₂ h₃ h₄ => ⟨h₁, h₂, h₃, h₄⟩

theorem Same.advance {s s' : PlanTree} (h : s.Same s') (c : Nat) :
    (advanceGraphRevision c s).Same (advanceGraphRevision c s') :=
  (h.modify c (f := fun x => { x with graphRevision := x.graphRevision + 1 })
    fun _ _ h₁ h₂ h₃ h₄ => ⟨h₁, h₂, congrArg (· + 1) h₃, h₄⟩).clear c

theorem Same.setRegistry {s s' : PlanTree} (h : s.Same s') (c : Nat) (r : Registry) :
    (setRegistry c r s).Same (setRegistry c r s') :=
  h.modify c fun _ _ h₁ _ h₃ h₄ => ⟨h₁, rfl, h₃, h₄⟩

theorem Same.push {s s' : PlanTree} (h : s.Same s') (c : Nat) :
    PlanTree.Same
      { s with scopes := s.scopes.push { (default : PlanScope) with ancestors := s.lineage c } }
      { s' with scopes := s'.scopes.push { (default : PlanScope) with ancestors := s'.lineage c } } := by
  rw [h.lineage c]
  refine ⟨h.nextRef, congrArg (· + 1) h.size, ?_, ?_, ?_, ?_⟩ <;> intro d <;>
    simp only [Heap.get_push, h.size] <;> split
  · rfl
  · exact h.ancestors d
  · rfl
  · exact h.registry d
  · rfl
  · exact h.graphRevision d
  · rfl
  · exact h.disposed d

/-! ## Runs -/

/-- The same answer, and sound trees that differ in plans only. -/
def Matches {α : Type} (w : World) (r r' : α × PlanTree) : Prop :=
  r.1 = r'.1 ∧ r.2.Sound w ∧ r'.2.Sound w ∧ r.2.Same r'.2

def Tracks {α : Type} (w : World) (x : StateM PlanTree α) : Prop :=
  ∀ s s', s.Sound w → s'.Sound w → s.Same s' → Matches w (x s) (x s')

section Tracks

variable {α β : Type} {x x' : StateM PlanTree α}

theorem Tracks.ret (a : α) : Tracks w (pure a : StateM PlanTree α) :=
  fun _ _ hs hs' same => ⟨rfl, hs, hs', same⟩

theorem Matches.bind {s s' : PlanTree} {f : α → StateM PlanTree β} (hx : Matches w (x s) (x' s'))
    (hf : ∀ a, Tracks w (f a)) : Matches w ((x >>= f) s) ((x' >>= f) s') := by
  obtain ⟨ha, hs, hs', same⟩ := hx
  have := hf (x s).1 _ _ hs hs' same
  change Matches w (f (x s).1 (x s).2) (f (x' s').1 (x' s').2)
  rwa [← ha]

theorem Tracks.bind {f : α → StateM PlanTree β} (hx : Tracks w x) (hf : ∀ a, Tracks w (f a)) :
    Tracks w (x >>= f) :=
  fun s s' hs hs' same => (hx s s' hs hs' same).bind hf

theorem Matches.of_returns {s s' s₀ : PlanTree} (hs : Kept w s₀ s) (hs' : Kept w s₀ s') {a : α}
    (h : Returns (Kept w s₀) x a) : Matches w (x s) (x s') := by
  obtain ⟨e, hk, hsame⟩ := h s hs
  obtain ⟨e', hk', hsame'⟩ := h s' hs'
  exact ⟨e.trans e'.symm, hk, hk', hsame.trans hsame'.symm⟩

theorem tracks_ask (c : Nat) (q : Query) : Tracks w (ask w c q) :=
  fun s _ hs hs' same => .of_returns ⟨hs, .rfl' s⟩ ⟨hs', same.symm⟩ (returns_ask hs c q)

theorem tracks_askAll (qs : List (Nat × Query)) : Tracks w (askAll w qs) := by
  induction qs with
  | nil => exact .ret []
  | cons e rest ih => exact (tracks_ask e.1 e.2).bind fun a => ih.bind fun as => .ret (a :: as)

end Tracks

theorem Sound.setRegistry {s : PlanTree} (hs : s.Sound w) (c : Nat) (r : Registry) :
    (advanceGraphRevision c (PlanTree.setRegistry c r s)).Sound w :=
  hs.mutate c (fun x => { x with registry := r }) (fun _ => rfl) fun _ => rfl

theorem Sound.nextRef {s : PlanTree} (hs : s.Sound w) (ref : Nat) :
    PlanTree.Sound w { s with nextRef := ref } := ⟨hs.1, hs.2, hs.3, hs.4, hs.5⟩

theorem Same.setNextRef {s s' : PlanTree} (h : s.Same s') (ref : Nat) :
    PlanTree.Same { s with nextRef := ref } { s' with nextRef := ref } := ⟨rfl, h.2, h.3, h.4, h.5, h.6⟩

/-- A batch that throws part-way leaves the caches sound as well. -/
theorem tracks_registerAll (c : Nat) (ds : List Provider) : Tracks w (registerAll w c ds) := by
  induction ds with
  | nil => exact .ret _
  | cons d rest ih =>
    intro s s' hs hs' same
    simp only [registerAll]
    rw [← same.nextRef]
    set s₁ : PlanTree := { s with nextRef := s.nextRef + 1 }
    set s₁' : PlanTree := { s' with nextRef := s.nextRef + 1 }
    have same₁ : s₁.Same s₁' := same.setNextRef _
    have hs₁ : s₁.Sound w := hs.nextRef _
    have hs₁' : s₁'.Sound w := hs'.nextRef _
    rw [← same₁.view, ← show (s.scopes.get c).registry = (s'.scopes.get c).registry from same.registry c,
      ← show (s.scopes.get c).ancestors = (s'.scopes.get c).ancestors from same.ancestors c]
    cases (s.scopes.get c).registry.registerOne w (s₁.view (s.scopes.get c).ancestors) s.nextRef d with
    | error e => exact ⟨rfl, hs₁, hs₁', same₁⟩
    | ok r =>
      exact ih _ _ (hs₁.setRegistry c r) (hs₁'.setRegistry c r) ((same₁.setRegistry c r).advance c)

theorem tracks_overrideAll (c : Nat) (examined : Token → List (Nat × Query))
    (groups : List (Token × List NormalizedProvider)) : Tracks w (overrideAll w c examined groups) := by
  induction groups with
  | nil => exact .ret _
  | cons g rest ih =>
    have replace : Tracks w (modify fun s : PlanTree =>
        advanceGraphRevision c (setRegistry c ((s.scopes.get c).registry.replace g.1 g.2) s)) := by
      intro s s' hs hs' same
      refine ⟨rfl, hs.setRegistry c _, hs'.setRegistry c _, ?_⟩
      change (advanceGraphRevision c (setRegistry c ((s.scopes.get c).registry.replace g.1 g.2) s)).Same
        (advanceGraphRevision c (setRegistry c ((s'.scopes.get c).registry.replace g.1 g.2) s'))
      rw [same.registry]
      exact (same.setRegistry c _).advance c
    exact (tracks_askAll _).bind fun evicted => replace.bind fun _ => ih.bind fun as => .ret _

theorem returns_validateOverride {σ : Type} {I : σ → Prop} {has : Token → StateM σ Bool}
    {has' : Token → Id Bool} (h : ∀ t, Returns I (has t) (has' t)) (requestScope : Bool)
    (groups : List (Token × List NormalizedProvider)) :
    Returns I (validateOverride requestScope has groups)
      (@validateOverride Id _ requestScope has' groups) := by
  unfold validateOverride
  refine .bind' (.firstOf (fun g => ?_) groups) fun introduced => ?_
  · exact .ite (fun _ => .bind' (h g.1) fun b => .ret (!b)) fun _ => .ret false
  · cases introduced with
    | some g => exact .ret _
    | none =>
      dsimp only
      cases groups.find? fun g => replacementConflicts g.2 with
      | some g => exact .ret _
      | none => exact .ret _

theorem tracks_override (c : Nat) (ds : List Provider) (examined : Token → List (Nat × Query)) :
    Tracks w (override w c ds examined) := by
  intro s s' hs hs' same
  simp only [override]
  rw [← same.isDisposedInHierarchy, ← same.nextRef]
  split
  · exact ⟨rfl, hs, hs', same⟩
  cases w.normalizeBatch s.nextRef ds with
  | error e => exact ⟨rfl, hs.nextRef _, hs'.nextRef _, same.setNextRef _⟩
  | ok ps =>
    dsimp only
    set s₁ : PlanTree := { s with nextRef := s.nextRef + ds.length }
    set s₁' : PlanTree := { s' with nextRef := s.nextRef + ds.length }
    have same₁ : s₁.Same s₁' := same.setNextRef _
    have hs₁ : s₁.Sound w := hs.nextRef _
    have hs₁' : s₁'.Sound w := hs'.nextRef _
    -- both trees answer `has` as the registrations of the first one do
    have valid := returns_validateOverride
      (queries_agree hs₁ (IsLineage.lineage s₁ c)).has (!(s₁.scopes.get c).ancestors.isEmpty)
      (groupByToken ps).entries
    have tail : ∀ v, Tracks w (applyOverride w c examined (groupByToken ps).entries v) := by
      rintro (e | _)
      · exact .ret _
      · exact tracks_overrideAll c examined _
    rw [← same₁.lineage, ← same₁.view, show (s'.scopes.get c).ancestors = _ from (same₁.ancestors c).symm]
    exact (Matches.of_returns ⟨hs₁, .rfl' s₁⟩ ⟨hs₁', same₁.symm⟩ valid).bind tail

theorem tracks_register (c : Nat) (ds : List Provider) : Tracks w (register w c ds) := by
  intro s s' hs hs' same
  simp only [register]
  rw [← same.isDisposedInHierarchy]
  split
  · exact ⟨rfl, hs, hs', same⟩
  · exact tracks_registerAll c ds s s' hs hs' same

theorem tracks_call (op : Op) : Tracks w (call w op) := by
  intro s s' hs hs' same
  simp only [call]
  rw [← same.size]
  split
  case isFalse => exact ⟨rfl, hs, hs', same⟩
  case isTrue hc =>
    cases op with
    | register c ds => exact (tracks_register c ds).bind (fun a => .ret [a]) s s' hs hs' same
    | override c ds examined => exact tracks_override c ds examined s s' hs hs' same
    | createRequestScope c =>
      refine Matches.bind (x := createRequestScope c) ?_ fun a => .ret [a]
      simp only [createRequestScope]
      rw [← same.isDisposedInHierarchy]
      split
      · exact ⟨rfl, hs, hs', same⟩
      · exact ⟨rfl, hs.push hc, hs'.push (same.size ▸ hc), same.push c⟩
    | ask c q => exact (tracks_ask c q).bind (fun a => .ret [a]) s s' hs hs' same
    | dispose c =>
      refine ⟨rfl, hs.mutate c _ (fun _ => rfl) fun _ => rfl, hs'.mutate c _ (fun _ => rfl) fun _ => rfl, ?_⟩
      exact (same.modify c (f := fun x => { x with disposed := true })
        fun _ _ h₁ h₂ h₃ _ => ⟨h₁, h₂, h₃, rfl⟩).advance c
    | clearDisposalCaches c => exact ⟨rfl, hs.clear c, hs'.clear c, same.clear c⟩

theorem tracks_runAll (ops : List Op) : Tracks w (runAll w ops) := by
  induction ops with
  | nil => exact .ret []
  | cons op rest ih => exact (tracks_call op).bind fun as => ih.bind fun bs => .ret (as ++ bs)

theorem initial_sound (enabled : Bool) : (initial enabled).Sound w := by
  have cell : ∀ c, (initial enabled).scopes.get c = default := by
    intro c
    simp only [initial, Heap.get_push]
    split <;> rfl
  constructor
  · intro c d hd
    rw [cell] at hd
    cases hd
  · intro c p up h
    rw [cell] at h
    cases h
  · intro c k t plan h
    rw [cell] at h
    cases h
  · intro c k t plan h
    rw [cell] at h
    cases h
  · intro r hr
    cases hr

/-- Whatever the calls on the containers of a tree and their order: an answer
taken from a plan cache, during a call or after it, is the one the
registrations give at that moment, and all answers are those of the same calls
with the plan caches disabled. -/
theorem planCaches_transparent (w : World) (ops : List Op) :
    let run := runAll w ops (initial true)
    (∀ r ∈ run.2.reads, Recomputes w r.view r.kind r.token r.answer) ∧
      (∀ c k t a, (readCachedPlan k (run.2.lineage c) t run.2).1 = some a →
        Recomputes w (run.2.view (run.2.lineage c)) k t a) ∧
      run.1 = (runAll w ops (initial false)).1 := by
  obtain ⟨answers, sound, -, -⟩ := tracks_runAll (w := w) ops (initial true) (initial false)
    (initial_sound true) (initial_sound false) ⟨rfl, rfl, fun _ => rfl, fun _ => rfl, fun _ => rfl, fun _ => rfl⟩
  refine ⟨sound.reads, fun c k t a h => ?_, answers⟩
  exact (read_kept (IsLineage.lineage _ c) k t ⟨sound, .rfl' _⟩).1 a h

end PlanTree

end Fluo.Di
