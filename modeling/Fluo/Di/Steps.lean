import Fluo.Di.System

/-!
# What a step can do

Every step is one of five kinds: it works on tasks, attempts and caches only
(`Still`), changes registrations or the tree, starts a context, ends a round
of waiting for stale tasks, or is a move of one context. The first two kinds
leave promises and contexts alone and at most remove cache entries
(`Quiet`).
-/

namespace Fluo.Di

namespace Sys

variable {w : World} {s s' s'' : Sys}

/-! ## Quiet steps -/

/-- Tasks that are not scheduled yet are settled. -/
def Unscheduled (s : Sys) : Prop := ∀ τ, s.tasks.size ≤ τ → (s.tasks.get τ).stage = .settled

structure Quiet (s s' : Sys) : Prop where
  promises : s'.promises = s.promises
  contexts : s'.contexts = s.contexts
  objects : s'.objects = s.objects
  cache : ∀ c key promise, (s'.containers.get c).cache.get key = some promise →
    (s.containers.get c).cache.get key = some promise
  unscheduled : s.Unscheduled → s'.Unscheduled

/-- A quiet step that changes neither the tree nor any registration. -/
structure Fixed (s s' : Sys) : Prop extends Quiet s s' where
  size : s'.containers.size = s.containers.size
  nextRef : s'.nextRef = s.nextRef
  config : ∀ c, (s'.containers.get c).registry = (s.containers.get c).registry ∧
    (s'.containers.get c).ancestors = (s.containers.get c).ancestors

/-- One that leaves the caches alone as well. -/
structure Still (s s' : Sys) : Prop extends Fixed s s' where
  kept : ∀ c, (s'.containers.get c).cache = (s.containers.get c).cache

theorem Quiet.refl (s : Sys) : Quiet s s := ⟨rfl, rfl, rfl, fun _ _ _ h => h, id⟩

theorem Quiet.trans (h : Quiet s s') (h' : Quiet s' s'') : Quiet s s'' :=
  ⟨h'.promises.trans h.promises, h'.contexts.trans h.contexts, h'.objects.trans h.objects,
    fun c key promise hp => h.cache c key promise (h'.cache c key promise hp),
    fun u => h'.unscheduled (h.unscheduled u)⟩

theorem Fixed.refl (s : Sys) : Fixed s s := ⟨.refl s, rfl, rfl, fun _ => ⟨rfl, rfl⟩⟩

theorem Fixed.trans (h : Fixed s s') (h' : Fixed s' s'') : Fixed s s'' :=
  ⟨h.toQuiet.trans h'.toQuiet, h'.size.trans h.size, h'.nextRef.trans h.nextRef,
    fun c => ⟨(h'.config c).1.trans (h.config c).1, (h'.config c).2.trans (h.config c).2⟩⟩

theorem Fixed.modify (s : Sys) (c : Nat) {f : Container → Container}
    (hf : ∀ x key promise, (f x).cache.get key = some promise → x.cache.get key = some promise)
    (same : ∀ x, (f x).registry = x.registry ∧ (f x).ancestors = x.ancestors) : Fixed s (s.modifyContainer c f) := by
  refine ⟨⟨rfl, rfl, rfl, ?_, id⟩, rfl, rfl, fun d => ?_⟩
  · intro d key promise h
    simp only [Sys.modifyContainer, Heap.get_modify] at h
    split at h
    · rename_i e
      subst e
      exact hf _ key promise h
    · exact h
  · exact ⟨Heap.get_modify_proj _ c f Container.registry (same _).1 d,
      Heap.get_modify_proj _ c f Container.ancestors (same _).2 d⟩

theorem Fixed.foldl {α : Type} {f : Sys → α → Sys} (hf : ∀ s a, Fixed s (f s a)) (l : List α) (s : Sys) :
    Fixed s (l.foldl f s) := by
  induction l generalizing s with
  | nil => exact refl s
  | cons a rest ih => exact (hf s a).trans (ih (f s a))

namespace Still

theorem refl (s : Sys) : Still s s := ⟨.refl s, fun _ => rfl⟩

theorem trans (h : Still s s') (h' : Still s' s'') : Still s s'' :=
  ⟨h.toFixed.trans h'.toFixed, fun c => (h'.kept c).trans (h.kept c)⟩

theorem of_eq (hp : s'.promises = s.promises) (hk : s'.contexts = s.contexts) (ho : s'.objects = s.objects)
    (hc : s'.containers = s.containers) (hn : s'.nextRef = s.nextRef) (hu : s.Unscheduled → s'.Unscheduled) : Still s s' := by
  refine ⟨⟨⟨hp, hk, ho, fun c key promise h => ?_, hu⟩, by rw [hc], hn, fun c => ?_⟩, fun c => by rw [hc]⟩
  · rwa [hc] at h
  · rw [hc]; exact ⟨rfl, rfl⟩

variable {t : Sys}

theorem keep (h : Still s t) {c : Nat} {f : Container → Container}
    (same : ∀ x, (f x).cache = x.cache ∧ (f x).registry = x.registry ∧ (f x).ancestors = x.ancestors) :
    Still s (t.modifyContainer c f) :=
  h.trans ⟨.modify t c (fun x key promise e => by rwa [(same x).1] at e) fun x => (same x).2,
    fun d => t.containers.get_modify_proj c f Container.cache (same _).1 d⟩

theorem modifyTask (h : Still s t) {τ : Nat} {f : StaleTask → StaleTask}
    (hf : (t.tasks.get τ).stage = .settled → (f (t.tasks.get τ)).stage = .settled) : Still s (t.modifyTask τ f) := by
  refine h.trans (.of_eq rfl rfl rfl rfl rfl fun unscheduled σ outside => ?_)
  have settled := unscheduled σ outside
  simp only [Sys.modifyTask, Heap.get_modify]
  split
  · next same =>
    rw [same] at settled
    exact hf settled
  · exact settled

theorem setStage (h : Still s t) {α : Nat} {stage : AttemptStage} {errors : Rejection} :
    Still s (t.setStage α stage errors) :=
  h.trans (.of_eq rfl rfl rfl rfl rfl id)

theorem pushTask (h : Still s t) {task : StaleTask} : Still s (t.pushTask task) := by
  refine h.trans (.of_eq rfl rfl rfl rfl rfl fun unscheduled σ outside => ?_)
  have outside : t.tasks.size < σ := outside
  simp only [Sys.pushTask, Heap.get_push, if_neg (Nat.ne_of_gt outside)]
  exact unscheduled σ (Nat.le_of_lt outside)

theorem pushAttempt (h : Still s t) {a : Attempt} : Still s (t.pushAttempt a) :=
  h.trans (.of_eq rfl rfl rfl rfl rfl id)

theorem pushCall (h : Still s t) {call : DisposeCall} : Still s (t.pushCall call) :=
  h.trans (.of_eq rfl rfl rfl rfl rfl id)

theorem setCall (h : Still s t) {κ : Nat} {call : DisposeCall} : Still s (t.setCall κ call) :=
  h.trans (.of_eq rfl rfl rfl rfl rfl id)

theorem log (h : Still s t) {e : HookEvent} : Still s (t.log e) :=
  h.trans (.of_eq rfl rfl rfl rfl rfl id)

theorem foldl {α : Type} (h : Still s t) {f : Sys → α → Sys} (hf : ∀ s a, Still s (f s a)) {l : List α} :
    Still s (l.foldl f t) := by
  induction l generalizing t with
  | nil => exact h
  | cons a rest ih => exact ih (h.trans (hf t a))

theorem dropTask (h : Still s t) {τ : Nat} {observers : List Nat} : Still s (t.dropTask τ observers) :=
  h.foldl fun s _ => (refl s).keep (by exact fun _ => ⟨rfl, rfl, rfl⟩)

theorem scheduleStaleDisposal (h : Still s t) {c promise owner : Nat} :
    Still s (t.scheduleStaleDisposal c promise owner) :=
  h.pushTask.foldl fun s _ => (refl s).keep (by exact fun _ => ⟨rfl, rfl, rfl⟩)

theorem settleTask (c : Nat) (acc : Sys × Rejection) (τ : Nat) :
    Still acc.1 (Sys.settleTask c acc τ).1 := by
  unfold Sys.settleTask
  dsimp only
  split
  · exact (refl _).keep (by exact fun _ => ⟨rfl, rfl, rfl⟩)
  · split
    · exact ((refl _).modifyTask id).dropTask
    · exact (refl _).modifyTask id

theorem nextStaleRound {c : Nat} {wait : StaleWait} {r : Sys × StaleWait}
    (h : s.nextStaleRound c wait = some r) : Still s r.1 := by
  unfold Sys.nextStaleRound at h
  split at h
  · cases h
    have fold : ∀ (l : List Nat) (acc : Sys × Rejection), Still acc.1 (l.foldl (Sys.settleTask c) acc).1 := by
      intro l
      induction l with
      | nil => intro acc; exact refl _
      | cons τ rest ih => intro acc; exact (settleTask c acc τ).trans (ih _)
    exact fold wait.round (s, wait.errors)
  · cases h

theorem advanceTask {τ : Nat} (h : s.advanceTask w τ = some s') : Still s s' := by
  unfold Sys.advanceTask at h
  dsimp only at h
  split at h
  · next stage =>
    -- a task that waits is scheduled
    have open_ : (s.tasks.get τ).stage ≠ .settled := by simp [stage]
    split at h
    · cases h
    · cases h
      exact (refl s).modifyTask fun settled => absurd settled open_
    · split at h
      · cases h; exact ((refl s).modifyTask fun settled => absurd settled open_).log
      · cases h; exact (refl s).modifyTask fun settled => absurd settled open_
  · cases h
    have filtered : Still s (s.modifyContainer (s.tasks.get τ).retryOwner fun x =>
        { x with materialized := x.materialized.filter (· ≠ (s.tasks.get τ).promise) }) :=
      (refl s).keep (by exact fun _ => ⟨rfl, rfl, rfl⟩)
    split
    · exact filtered.modifyTask fun _ => rfl
    · exact filtered.dropTask.modifyTask fun _ => rfl
  · cases h
  · cases h

theorem taskHook {τ : Nat} {thrown : Option Nat} (h : s.taskHook τ thrown = some s') : Still s s' := by
  unfold Sys.taskHook at h
  split at h
  · next stage =>
    cases h
    exact ((refl s).modifyTask fun settled => absurd (stage.symm.trans settled) (by simp)).log
  · next stage =>
    cases h
    exact ((refl s).modifyTask fun settled => absurd (stage.symm.trans settled) (by simp)).log
  · cases h

theorem releaseNonOwnerObserversInSubtree (h : Still s t) {c : Nat} :
    Still s (t.releaseNonOwnerObserversInSubtree c) := by
  refine h.foldl fun s d => (refl s).foldl fun s τ => ?_
  dsimp only
  split
  · exact (refl s).dropTask
  · exact refl s

theorem detach (s : Sys) (c : Nat) (origin : Origin) (completed : Bool) :
    Still s (s.detach c origin completed) := by
  unfold Sys.detach
  split
  · exact refl s
  dsimp only
  split
  · split
    · exact ((refl s).releaseNonOwnerObserversInSubtree.keep (by exact fun _ => ⟨rfl, rfl, rfl⟩)).keep
        (by exact fun _ => ⟨rfl, rfl, rfl⟩)
    · exact ((refl s).keep (by exact fun _ => ⟨rfl, rfl, rfl⟩)).keep (by exact fun _ => ⟨rfl, rfl, rfl⟩)
  · exact refl s

theorem attemptHook {α : Nat} {thrown : Option Nat} (h : s.attemptHook α thrown = some s') :
    Still s s' := by
  unfold Sys.attemptHook at h
  dsimp only at h
  split at h
  · cases h; exact ((refl s).modifyTask id).dropTask.setStage.log
  · cases h; exact ((refl s).modifyTask id).setStage.log
  · cases h; exact (refl s).setStage.log
  · cases h; exact (refl s).setStage.log
  · cases h

theorem advanceCall {κ : Nat} (h : s.advanceCall κ = some s') : Still s s' := by
  unfold Sys.advanceCall at h
  dsimp only at h
  split at h
  · cases h
    refine Still.setCall ?_
    generalize (_ && _ : Bool) = retry
    cases retry
    · exact refl s
    · exact (refl s).keep (by exact fun _ => ⟨rfl, rfl, rfl⟩)
  · cases h

theorem startDispose (n : Nat) (origin : Origin) (c : Nat) (s : Sys) :
    Still s (startDispose n origin c s).1 := by
  induction n generalizing origin c s with
  | zero => exact refl s
  | succ n ih =>
    unfold Sys.startDispose
    split
    · exact (refl s).pushCall
    · have children : ∀ (l : List Nat) (acc : Sys × List Nat), Still s acc.1 →
          Still s (l.foldl (fun (acc : Sys × List Nat) child =>
            let r := Sys.startDispose n .parent child acc.1
            (r.1, acc.2 ++ [r.2])) acc).1 := by
        intro l
        induction l with
        | nil => intro acc h; exact h
        | cons child rest ihl => intro acc h; exact ihl _ (h.trans (ih .parent child acc.1))
      dsimp only
      exact ((children _ (_, []) ((refl s).keep (by exact fun _ => ⟨rfl, rfl, rfl⟩))).pushAttempt.keep
        (by exact fun _ => ⟨rfl, rfl, rfl⟩)).pushCall

end Still

/-! ## Steps that take cache entries away -/

theorem evict_fixed (c owner : Nat) (s : Sys) (e : CacheKey × Nat) : Fixed s (s.evict c owner e) := by
  refine (Still.refl s).scheduleStaleDisposal.toFixed.trans (.modify _ c (fun x j promise h => ?_) (by exact fun _ => ⟨rfl, rfl⟩))
  rw [OrderedMap.get_erase] at h
  split at h
  · cases h
  · exact h

theorem invalidateInHierarchy_fixed (c : Nat) (t : Token) (s : Sys) : Fixed s (s.invalidateInHierarchy w c t) :=
  .foldl (fun s d => .foldl (evict_fixed d c) _ s) _ s

theorem advanceAttempt_fixed {α : Nat} (h : s.advanceAttempt w α = some s') : Fixed s s' := by
  unfold Sys.advanceAttempt at h
  dsimp only at h
  split at h
  · split at h
    · cases h; exact (Still.refl s).setStage.toFixed
    · cases h
  · split at h
    · cases h; exact (Still.refl s).setStage.toFixed
    · obtain ⟨r, hr, rfl⟩ := Option.map_eq_some_iff.mp h
      exact (Still.nextStaleRound hr).setStage.toFixed
  · cases h; exact (Still.refl s).setStage.toFixed
  · split at h
    · cases h; exact (Still.refl s).setStage.log.toFixed
    · cases h; exact (Still.refl s).setStage.toFixed
  · split at h
    · cases h; exact (Still.refl s).setStage.toFixed
    · cases h
  · cases h; exact (Still.refl s).setStage.toFixed
  · cases h
    exact (Fixed.modify s _ (fun x key promise h => by simp at h) (by exact fun _ => ⟨rfl, rfl⟩)).trans (Still.refl _).setStage.toFixed
  · cases h; exact (Still.refl s).setStage.log.toFixed
  · cases h; exact (Still.detach s _ _ _).setStage.toFixed
  · cases h
  · cases h
  · cases h

/-! ## Steps that change registrations -/

theorem setRegistry_quiet (c : Nat) (r : Registry) (s : Sys) : Quiet s (setRegistry c r s) := by
  refine ⟨rfl, rfl, rfl, fun d key promise h => ?_, id⟩
  simp only [setRegistry, modifyContainer, Heap.get_modify] at h
  split at h
  · rename_i e; subst e; exact h
  · exact h

theorem setNextRef_quiet (ref : Nat) (s : Sys) : Quiet s (setNextRef ref s) := ⟨rfl, rfl, rfl, fun _ _ _ h => h, id⟩

theorem registerAll_quiet (c : Nat) (ds : List Provider) (s : Sys) : Quiet s (registerAll w c ds s) := by
  induction ds generalizing s with
  | nil => exact .refl s
  | cons d rest ih =>
    unfold registerAll
    dsimp only
    split
    · exact setNextRef_quiet _ s
    · exact ((setNextRef_quiet _ s).trans (setRegistry_quiet c _ _)).trans (ih _)

theorem overrideToken_quiet (c : Nat) (s : Sys) (g : Token × List NormalizedProvider) :
    Quiet s (overrideToken w c s g) :=
  (invalidateInHierarchy_fixed c g.1 s).toQuiet.trans (setRegistry_quiet c _ _)

theorem override_quiet (c : Nat) (ds : List Provider) (s : Sys) : Quiet s (override w c ds s) := by
  unfold override
  split
  · exact .refl s
  dsimp only
  split
  · exact setNextRef_quiet _ s
  split
  · exact setNextRef_quiet _ s
  · rename_i ps _ _ _
    have fold : ∀ (l : List (Token × List NormalizedProvider)) (t : Sys),
        Quiet t (l.foldl (overrideToken w c) t) := by
      intro l
      induction l with
      | nil => exact fun t => .refl t
      | cons g rest ih => exact fun t => (overrideToken_quiet c t g).trans (ih _)
    exact (setNextRef_quiet _ s).trans (fold _ _)

theorem createRequestScope_quiet (c : Nat) (s : Sys) : Quiet s (createRequestScope c s) := by
  unfold createRequestScope
  split
  · exact .refl s
  · refine ⟨rfl, rfl, rfl, ?_, id⟩
    intro d key promise h
    simp only [Heap.get_push] at h
    split at h
    · simp [default] at h
    · exact h

end Sys

end Fluo.Di
