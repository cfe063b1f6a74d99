import Fluo.Di.Ledger
import Fluo.Di.Tree

/-!
# What contexts and promises refer to

Contexts name containers that exist, contributions that were registered, and
promises that were made; what a value was built from is fulfilled. A
singleton's promise lies in the slot of its provider: on the root, unless the
provider is registered on a request scope.
-/

namespace Fluo.Di

def NormalizedProvider.slot (p : NormalizedProvider) : CacheKey :=
  if p.multi then .contribution p.ref else .token p.provide

namespace Sys

variable {w : World} {s s' s'' : Sys} {k : Nat}

def Fulfilled (s : Sys) (π : Nat) : Prop := π < s.promises.size ∧ ∃ v, (s.promises.get π).status = .fulfilled v

def FrameSound (s : Sys) : Frame → Prop
  | .contributions c rest _ uses => c < s.containers.size ∧ (∀ p ∈ rest, p.multi = true ∧ p.ref < s.nextRef) ∧
    ∀ π ∈ uses, s.Fulfilled π
  | .deps c _ _ _ uses => c < s.containers.size ∧ ∀ π ∈ uses, s.Fulfilled π
  | .enter _ | .settle _ => True

def CtlSound (s : Sys) : Ctl → Prop
  | .stale start _ => start.container < s.containers.size
  | .eval c _ _ => c < s.containers.size
  | .contribution c p => c < s.containers.size ∧ p.multi = true ∧ p.ref < s.nextRef
  | .await π _ => π < s.promises.size
  | .ret _ uses => ∀ π ∈ uses, s.Fulfilled π
  | .contributions | .deps | .running | .fail _ | .done _ => True

structure PromiseSound (s : Sys) (m : Materialization) : Prop where
  owner : m.owner < s.containers.size
  key : m.key = m.provider.slot
  scope : m.provider.scope ≠ .transient
  named : m.provider.ref < s.nextRef
  away : m.provider.scope = .singleton → m.home ≠ 0 → ∀ d, (s.registry d).Holds m.provider → d = m.home
  uses : ∀ π ∈ m.uses, s.Fulfilled π

structure Sound (s : Sys) : Prop where
  ctl : ∀ k, s.CtlSound (s.ctl k)
  frames : ∀ k, ∀ f ∈ s.stack k, s.FrameSound f
  promises : ∀ π < s.promises.size, s.PromiseSound (s.promises.get π)

/-! ## Later states -/

/-- What exists stays, and what is fulfilled stays fulfilled. -/
structure Later (s s' : Sys) : Prop where
  containers : s.containers.size ≤ s'.containers.size
  nextRef : s.nextRef ≤ s'.nextRef
  promises : s.promises.size ≤ s'.promises.size
  fulfilled : ∀ π v, π < s.promises.size → (s.promises.get π).status = .fulfilled v →
    (s'.promises.get π).status = .fulfilled v

theorem Later.refl (s : Sys) : Later s s := ⟨Nat.le_refl _, Nat.le_refl _, Nat.le_refl _, fun _ _ _ h => h⟩

theorem Later.trans (h : Later s s') (h' : Later s' s'') : Later s s'' :=
  ⟨Nat.le_trans h.containers h'.containers, Nat.le_trans h.nextRef h'.nextRef,
    Nat.le_trans h.promises h'.promises, fun π v hπ hv =>
      h'.fulfilled π v (Nat.lt_of_lt_of_le hπ h.promises) (h.fulfilled π v hπ hv)⟩

variable (l : Later s s')

include l

theorem Later.of_fulfilled {π : Nat} (h : s.Fulfilled π) : s'.Fulfilled π := by
  obtain ⟨hπ, v, hv⟩ := h
  exact ⟨Nat.lt_of_lt_of_le hπ l.promises, v, l.fulfilled π v hπ hv⟩

theorem Later.frame {f : Frame} (h : s.FrameSound f) : s'.FrameSound f := by
  cases f with
  | enter | settle => trivial
  | contributions c rest values uses =>
    obtain ⟨hc, hrest, huses⟩ := h
    exact ⟨Nat.lt_of_lt_of_le hc l.containers,
      fun p hp => ⟨(hrest p hp).1, Nat.lt_of_lt_of_le (hrest p hp).2 l.nextRef⟩,
      fun π hπ => l.of_fulfilled (huses π hπ)⟩
  | deps c p rest values uses =>
    exact ⟨Nat.lt_of_lt_of_le h.1 l.containers, fun π hπ => l.of_fulfilled (h.2 π hπ)⟩

theorem Later.ctl {x : Ctl} (h : s.CtlSound x) : s'.CtlSound x := by
  cases x with
  | stale start wait => exact Nat.lt_of_lt_of_le h l.containers
  | eval c t fwd => exact Nat.lt_of_lt_of_le h l.containers
  | contribution c p => exact ⟨Nat.lt_of_lt_of_le h.1 l.containers, h.2.1, Nat.lt_of_lt_of_le h.2.2 l.nextRef⟩
  | await π link => exact Nat.lt_of_lt_of_le h l.promises
  | ret v uses => exact fun π hπ => l.of_fulfilled (h π hπ)
  | contributions | deps | running | fail | done => trivial

/-- A promise stays sound while records that come in are new. -/
theorem Later.promise {m : Materialization} (h : s.PromiseSound m) (g : Grows s s') : s'.PromiseSound m where
  owner := Nat.lt_of_lt_of_le h.owner l.containers
  key := h.key
  scope := h.scope
  named := Nat.lt_of_lt_of_le h.named l.nextRef
  away singleton away d hd := by
    rcases g.holds d _ hd with hd | hd
    · exact h.away singleton away d hd
    · exact absurd h.named (Nat.not_lt.mpr hd)
  uses π hπ := l.of_fulfilled (h.uses π hπ)

omit l

theorem Moves.later {m : Move} (h : Moves w s k m) (ledger : Ledger s) : Later s (s.apply k m) where
  containers := Nat.le_of_eq (apply_containers_size s k m).symm
  nextRef := Nat.le_of_eq (apply_nextRef s k m).symm
  promises := promises_size_le
  fulfilled π v hπ hv := by
    rcases h.promise hπ with e | ⟨owed, -⟩
    · rw [e]; exact hv
    · rw [(ledger.owed k π owed).2.2] at hv; cases hv

theorem Fixed.later (h : Fixed s s') : Later s s' :=
  ⟨Nat.le_of_eq h.size.symm, Nat.le_of_eq h.nextRef.symm, Nat.le_of_eq (by rw [h.promises]),
    fun π v _ hv => by rw [h.promises]; exact hv⟩

theorem Configures.later {e : Event} (h : Configures w s e s') (c : Configured s) : Later s s' := by
  have q := h.quiet
  refine ⟨?_, (h.grows c).nextRef, Nat.le_of_eq (by rw [q.promises]), fun π v _ hv => by rw [q.promises]; exact hv⟩
  cases h with
  | register ds hc =>
    unfold Sys.register
    split
    · exact Nat.le_refl _
    · have fold : ∀ (ds : List Provider) (t : Sys) (c : Nat),
          (registerAll w c ds t).containers.size = t.containers.size := by
        intro ds
        induction ds with
        | nil => exact fun _ _ => rfl
        | cons d rest ih =>
          intro t c
          unfold registerAll
          dsimp only
          split
          · rfl
          · exact ih _ c
      exact Nat.le_of_eq (fold ds s _).symm
  | override ds hc =>
    unfold Sys.override
    split
    · exact Nat.le_refl _
    dsimp only
    split
    · exact Nat.le_refl _
    split
    · exact Nat.le_refl _
    · have fold : ∀ (l : List (Token × List NormalizedProvider)) (t : Sys) (c : Nat),
          (l.foldl (overrideToken w c) t).containers.size = t.containers.size := by
        intro l
        induction l with
        | nil => exact fun _ _ => rfl
        | cons g rest ih =>
          intro t c
          exact (ih _ c).trans (invalidateInHierarchy_fixed c g.1 t).size
      exact Nat.le_of_eq (fold _ (Sys.setNextRef (s.nextRef + ds.length) s) _).symm
  | createRequestScope hc =>
    unfold Sys.createRequestScope
    split
    · exact Nat.le_refl _
    · exact Nat.le_succ _

theorem StepKind.later {e : Event} (h : StepKind w s e s') (l : Ledger s) (c : Configured s) : Later s s' := by
  cases h with
  | still q => exact q.toFixed.later
  | attempt _ q => exact (advanceAttempt_fixed q).later
  | configure q => exact q.later c
  | start => exact ⟨Nat.le_refl _, Nat.le_refl _, Nat.le_refl _, fun _ _ _ h => h⟩
  | wake hk woken => exact woken.still.toFixed.later.trans ⟨Nat.le_refl _, Nat.le_refl _, Nat.le_refl _, fun _ _ _ h => h⟩
  | move _ hk hm => exact hm.later l

/-! ## Where a request goes -/

theorem lineage_lt (c : Configured s) {d : Nat} (hd : d < s.containers.size) :
    ∀ a ∈ s.lineage d, a < s.containers.size := by
  induction d using Nat.strongRecOn with
  | ind d ih =>
    intro a ha
    rcases List.mem_cons.mp ha with rfl | ha
    · exact hd
    · by_cases h0 : d = 0
      · subst h0
        have := c.root.2
        rw [Sys.ancestors] at this
        rw [this] at ha
        cases ha
      · obtain ⟨p, rest, hp, hlt, hrest⟩ := c.parent d hd h0
        refine ih p hlt (Nat.lt_trans hlt hd) a ?_
        rw [Sys.ancestors] at hp hrest
        rw [lineage, hrest]
        rwa [hp] at ha

theorem root_eq (c : Configured s) {d : Nat} (hd : d < s.containers.size) : s.root d = 0 := by
  induction d using Nat.strongRecOn with
  | ind d ih =>
    by_cases h0 : d = 0
    · subst h0
      have := c.root.2
      rw [Sys.ancestors] at this
      simp [root, lineage, this]
    · obtain ⟨p, rest, hp, hlt, hrest⟩ := c.parent d hd h0
      rw [← ih p hlt (Nat.lt_trans hlt hd)]
      rw [Sys.ancestors] at hp hrest
      simp only [root, lineage, hp, hrest]
      rw [List.getLast_cons (by simp)]

theorem view_eq (s : Sys) (c : Nat) : s.view c = (s.lineage c).map s.registry := rfl

/-- The owner of a singleton's cache is on the lineage: the scope that
registered the provider, or the root. -/
theorem singletonOwner_spec (p : NormalizedProvider) (l : List Nat) (hl : l ≠ []) :
    s.singletonOwner p l ∈ l ∧ (s.singletonOwner p l = l.getLast hl ∨
      (s.registry (s.singletonOwner p l)).registrations.get p.provide = some p ∨
      s.hasLocalMultiProvider (s.singletonOwner p l) p = true) := by
  match l, hl with
  | [c], _ => exact ⟨List.mem_singleton_self c, .inl rfl⟩
  | c :: d :: rest, _ =>
    unfold singletonOwner
    split
    · rename_i own; exact ⟨List.mem_cons_self, .inr own⟩
    · obtain ⟨hmem, h⟩ := singletonOwner_spec p (d :: rest) (by simp)
      exact ⟨List.mem_cons_of_mem c hmem, by rwa [List.getLast_cons (by simp)]⟩

theorem cacheOwnerFor_mem (p : NormalizedProvider) (c : Nat) : s.cacheOwnerFor c p ∈ s.lineage c := by
  unfold cacheOwnerFor
  split
  · exact (singletonOwner_spec p (s.lineage c) (by simp [lineage])).1
  · exact List.mem_cons_self

theorem hasLocalMultiProvider_holds (c : Configured s) {d : Nat} {p : NormalizedProvider}
    (h : s.hasLocalMultiProvider d p = true) : (s.registry d).Holds p := by
  unfold hasLocalMultiProvider at h
  cases hg : (s.containers.get d).registry.multiRegistrations.get p.provide with
  | none => simp [hg] at h
  | some ps => exact (c.keyed d).holds_multi hg (by simpa [hg] using h)

theorem Requests.owner_lt {before : List Frame} {owner : Nat} {key : CacheKey} {p : NormalizedProvider}
    {home : Except DiError Nat} (h : s.Requests k before owner key p home) (c : Configured s)
    (sound : s.CtlSound (s.ctl k)) : owner < s.containers.size := by
  cases h with
  | single ctl => rw [ctl] at sound; exact lineage_lt c sound _ (cacheOwnerFor_mem _ _)
  | contribution ctl => rw [ctl] at sound; exact lineage_lt c sound.1 _ (cacheOwnerFor_mem _ _)

theorem lookupProvider_holds (c : Configured s) {d : Nat} {t : Token} {p : NormalizedProvider}
    (h : (s.view d).lookupProvider t = some p) :
    p.provide = t ∧ p.multi = false ∧ ∃ a ∈ s.lineage d, (s.registry a).Holds p := by
  rw [view_eq] at h
  generalize s.lineage d = l at h ⊢
  induction l with
  | nil => cases h
  | cons a rest ih =>
    simp only [List.map_cons, View.lookupProvider, Option.or_eq_some_iff] at h
    rcases h with h | ⟨-, h⟩
    · exact ⟨(c.keyed a).1 t p h, (c.sorted a).1 t p h, a, List.mem_cons_self, (c.keyed a).holds_single h⟩
    · obtain ⟨h1, h2, b, hb, h3⟩ := ih h
      exact ⟨h1, h2, b, List.mem_cons_of_mem a hb, h3⟩

theorem collectMultiProviders_holds (c : Configured s) {d : Nat} {t : Token} {p : NormalizedProvider}
    (h : p ∈ (s.view d).collectMultiProviders t) :
    p.provide = t ∧ p.multi = true ∧ ∃ a ∈ s.lineage d, (s.registry a).Holds p := by
  rw [view_eq] at h
  generalize s.lineage d = l at h ⊢
  induction l with
  | nil => cases h
  | cons a rest ih =>
    have own (h : p ∈ ((s.registry a).multiRegistrations.get t).getD []) :
        p.provide = t ∧ p.multi = true ∧ ∃ b ∈ a :: rest, (s.registry b).Holds p := by
      cases hg : (s.registry a).multiRegistrations.get t with
      | none => simp [hg] at h
      | some ps =>
        have hp : p ∈ ps := by simpa [hg] using h
        exact ⟨(c.keyed a).2 t ps hg p hp, (c.sorted a).2 t ps hg p hp, a, List.mem_cons_self,
          (c.keyed a).holds_multi hg hp⟩
    simp only [List.map_cons, View.collectMultiProviders] at h
    split at h
    · exact own h
    · rcases List.mem_append.mp h with h | h
      · obtain ⟨h1, h2, b, hb, h3⟩ := ih h
        exact ⟨h1, h2, b, List.mem_cons_of_mem a hb, h3⟩
      · exact own h

theorem Requests.slot {before : List Frame} {owner : Nat} {key : CacheKey} {p : NormalizedProvider}
    {home : Except DiError Nat} (h : s.Requests k before owner key p home) (c : Configured s)
    (sound : s.CtlSound (s.ctl k)) : key = p.slot ∧ p.scope ≠ .transient ∧ p.ref < s.nextRef := by
  cases h with
  | single _ _ _ found _ scope =>
    obtain ⟨-, single, a, -, holds⟩ := lookupProvider_holds c found
    exact ⟨by simp [NormalizedProvider.slot, single], scope, (c.named a p holds).1⟩
  | contribution ctl _ scope =>
    rw [ctl] at sound
    exact ⟨by simp [NormalizedProvider.slot, sound.2.1], scope, sound.2.2⟩

/-- A singleton is cached on the root or on the scope that registered it, which
is then its owner as well. -/
theorem Requests.home {before : List Frame} {owner home : Nat} {key : CacheKey} {p : NormalizedProvider}
    (h : s.Requests k before owner key p (.ok home)) (c : Configured s) (sound : s.CtlSound (s.ctl k))
    (singleton : p.scope = .singleton) :
    home = 0 ∨ home = owner ∧ (s.registry home).Holds p := by
  have hlt := h.owner_lt c sound
  have owner_spec (d : Nat) (hd : d < s.containers.size) : s.cacheOwnerFor d p = 0 ∨
      (s.registry (s.cacheOwnerFor d p)).Holds p := by
    have := (singletonOwner_spec (s := s) p (s.lineage d) (by simp [lineage])).2
    rw [cacheOwnerFor, if_pos singleton]
    rcases this with e | own | own
    · left
      rw [e]
      exact root_eq c hd
    · exact .inr (.inl own)
    · exact .inr (hasLocalMultiProvider_holds c own)
  generalize hhome : (Except.ok home : Except DiError Nat) = answer at h
  cases h with
  | @single d t fwd _ _ ctl _ _ _ _ _ _ =>
    rw [ctl] at sound
    unfold cacheFor at hhome
    rw [if_pos singleton] at hhome
    split at hhome
    · cases hhome
      rcases owner_spec d sound with e | holds
      · exact .inl e
      · exact .inr ⟨rfl, holds⟩
    · cases hhome
      exact .inl (root_eq c hlt)
  | @contribution d _ ctl _ _ =>
    rw [ctl] at sound
    unfold multiCacheFor at hhome
    rw [if_pos singleton] at hhome
    split at hhome
    · cases hhome
      rcases owner_spec d sound.1 with e | holds
      · exact .inl e
      · exact .inr ⟨rfl, holds⟩
    · cases hhome
      exact .inl (root_eq c hlt)

/-! ## The invariant is kept -/

theorem instantiate_sound {c : Nat} {p : NormalizedProvider} (hc : c < s.containers.size) :
    (∀ f ∈ (s.instantiate w c p).1, s.FrameSound f) ∧ s.CtlSound (s.instantiate w c p).2 := by
  unfold instantiate
  split
  · exact ⟨nofun, trivial⟩
  · split
    · exact ⟨nofun, nofun⟩
    · exact ⟨nofun, trivial⟩
    · exact ⟨fun f hf => by rw [List.mem_singleton.mp hf]; exact ⟨hc, nofun⟩, trivial⟩
    · exact ⟨fun f hf => by rw [List.mem_singleton.mp hf]; exact ⟨hc, nofun⟩, trivial⟩

theorem linkPendingResolution_sound {promise : Nat} (h : promise < s.promises.size) (active : List Token)
    (t : Token) : s.CtlSound (s.linkPendingResolution k promise active t) := by
  unfold linkPendingResolution
  dsimp only
  split
  · exact h
  · split
    · trivial
    · exact h

theorem Requests.frames_sound {before : List Frame} {owner : Nat} {key : CacheKey} {p : NormalizedProvider}
    {home : Except DiError Nat} (h : s.Requests k before owner key p home) : ∀ f ∈ before, s.FrameSound f := by
  cases h with
  | single _ _ _ _ _ _ entered =>
    rcases entered with rfl | ⟨rfl, -⟩
    · intro f hf; rw [List.mem_singleton.mp hf]; trivial
    · exact nofun
  | contribution => exact nofun

theorem Moves.frames_sound {m : Move} (h : Moves w s k m) (c : Configured s) (sound : Sound s) :
    ∀ f ∈ Move.stack s k m, s.FrameSound f := by
  have old := sound.frames k
  have under : ∀ f ∈ (s.stack k).tail, s.FrameSound f := fun f hf => old f (List.mem_of_mem_tail hf)
  have on {fs : List Frame} (hfs : ∀ f ∈ fs, s.FrameSound f) {gs : List Frame} (hgs : ∀ f ∈ gs, s.FrameSound f) :
      ∀ f ∈ fs ++ gs, s.FrameSound f := fun f hf => (List.mem_append.mp hf).elim (hfs f) (hgs f)
  have cons {f : Frame} (hf : s.FrameSound f) {gs : List Frame} (hgs : ∀ f ∈ gs, s.FrameSound f) :
      ∀ g ∈ f :: gs, s.FrameSound g := fun g hg => (List.mem_cons.mp hg).elim (fun e => e ▸ hf) (hgs g)
  have ctl_sound := sound.ctl k
  have top_sound {f : Frame} {tail : List Frame} (top : s.stack k = f :: tail) : s.FrameSound f :=
    old f (by rw [top]; exact List.mem_cons_self)
  cases h with
  | cycle | unregistered | aliasContribution | runFactory | awaited | awaitFailed | returned | failed => exact old
  | @multi d t fwd ctl =>
    rw [ctl] at ctl_sound
    refine cons (f := .contributions _ _ _ _) ⟨ctl_sound, fun p hp => ?_, by simp⟩ (cons (f := .enter _) trivial old)
    obtain ⟨-, multi, a, -, holds⟩ := collectMultiProviders_holds c hp
    exact ⟨multi, (c.named a p holds).1⟩
  | aliasToken => exact cons (f := .enter _) trivial old
  | transientToken ctl =>
    rw [ctl] at ctl_sound
    exact on (on (instantiate_sound ctl_sound).1 (cons (f := .enter _) trivial (by simp))) old
  | transientContribution ctl =>
    rw [ctl] at ctl_sound
    exact on (instantiate_sound ctl_sound.1).1 old
  | refused requests => exact on requests.frames_sound old
  | cached requests => exact on requests.frames_sound old
  | create requests =>
    exact on (on (instantiate_sound (requests.owner_lt c ctl_sound)).1
      (cons (f := .settle _) trivial requests.frames_sound)) old
  | skipDependency _ top | evalDependency _ top =>
    obtain ⟨hd, huses⟩ := top_sound top
    exact cons (f := .deps _ _ _ _ _) ⟨hd, huses⟩ under
  | nextContribution _ top =>
    obtain ⟨hd, hrest, huses⟩ := top_sound top
    exact cons (f := .contributions _ _ _ _) ⟨hd, fun p hp => hrest p (List.mem_cons_of_mem _ hp), huses⟩ under
  | contributed ctl top =>
    rw [ctl] at ctl_sound
    obtain ⟨hd, hrest, huses⟩ := top_sound top
    exact cons (f := .contributions _ _ _ _)
      ⟨hd, hrest, fun π hπ => (List.mem_append.mp hπ).elim (huses π) (ctl_sound π)⟩ under
  | supplied ctl top =>
    rw [ctl] at ctl_sound
    obtain ⟨hd, huses⟩ := top_sound top
    exact cons (f := .deps _ _ _ _ _)
      ⟨hd, fun π hπ => (List.mem_append.mp hπ).elim (huses π) (ctl_sound π)⟩ under
  | collected | leave | fulfil | unwind | reject | made | shared | thrown => exact under

theorem Moves.ctl_sound {m : Move} (h : Moves w s k m) (l : Ledger s) (c : Configured s) (sound : Sound s) :
    (s.apply k m).CtlSound (Move.ctl s m) := by
  have later := h.later l
  have ctl_sound := sound.ctl k
  have top_sound {f : Frame} {tail : List Frame} (top : s.stack k = f :: tail) : s.FrameSound f :=
    sound.frames k f (by rw [top]; exact List.mem_cons_self)
  cases h with
  | cycle | unregistered | awaitFailed | refused | failed | unwind | reject | thrown => trivial
  | multi | runFactory | skipDependency | returned | contributed | supplied => trivial
  | aliasToken ctl => rw [ctl] at ctl_sound; exact later.ctl (x := .eval _ _ _) ctl_sound
  | aliasContribution ctl => rw [ctl] at ctl_sound; exact later.ctl (x := .eval _ _ _) ctl_sound.1
  | transientToken ctl => rw [ctl] at ctl_sound; exact later.ctl (instantiate_sound ctl_sound).2
  | transientContribution ctl => rw [ctl] at ctl_sound; exact later.ctl (instantiate_sound ctl_sound.1).2
  | cached requests hit => exact later.ctl (linkPendingResolution_sound (l.cached _ _ _ hit).1 _ _)
  | create requests => exact later.ctl (instantiate_sound (requests.owner_lt c ctl_sound)).2
  | evalDependency _ top => exact later.ctl (x := .eval _ _ _) (top_sound top).1
  | nextContribution _ top =>
    obtain ⟨hd, hrest, -⟩ := top_sound top
    have := hrest _ List.mem_cons_self
    exact later.ctl (x := .contribution _ _) ⟨hd, this.1, this.2⟩
  | awaited ctl status =>
    rw [ctl] at ctl_sound
    intro π hπ
    rw [List.mem_singleton.mp hπ]
    exact ⟨ctl_sound, _, status⟩
  | leave ctl => rw [ctl] at ctl_sound; exact later.ctl (x := .ret _ _) ctl_sound
  | collected _ top => exact later.ctl (x := .ret _ _) (top_sound top).2.2
  | made _ _ top | shared _ _ top => exact later.ctl (x := .ret _ _) (top_sound top).2
  | @fulfil v uses promise tail ctl top =>
    intro π hπ
    rw [List.mem_singleton.mp hπ]
    have hlt := (l.owed k promise (by rw [Sys.owed, top]; simp [Frame.settles])).1
    refine ⟨Nat.lt_of_lt_of_le hlt later.promises, v, ?_⟩
    rw [apply_promises]
    simp [Move.promises]

theorem Moves.promises_sound {m : Move} (h : Moves w s k m) (l : Ledger s) (c : Configured s) (sound : Sound s) :
    ∀ π < (s.apply k m).promises.size, (s.apply k m).PromiseSound ((s.apply k m).promises.get π) := by
  have later := h.later l
  have grows : Grows s (s.apply k m) := .of_eq (apply_nextRef s k m) fun d => (apply_container s k m d).1
  have ctl_sound := sound.ctl k
  intro π hπ
  by_cases hold : π < s.promises.size
  · rcases h.promise hold with e | ⟨owed, status, uses, -, e⟩
    · rw [e]; exact later.promise (sound.promises π hold) grows
    · have old := later.promise (sound.promises π hold) grows
      rw [e]
      refine ⟨old.owner, old.key, old.scope, old.named, old.away, ?_⟩
      -- The value was returned to the promise's own frame.
      change ∀ π' ∈ uses, _
      have huses : ((s.apply k m).promises.get π).uses = uses := by rw [e]
      rw [apply_promises] at huses
      cases h with
      | @fulfil v us promise tail ctl top =>
        rw [ctl] at ctl_sound
        by_cases ep : π = promise
        · subst ep
          simp only [Move.promises, Heap.get_modify_self] at huses
          subst huses
          exact fun π' hπ' => later.of_fulfilled (ctl_sound π' hπ')
        · simp only [Move.promises, Heap.get_modify_ne _ _ ep] at huses
          subst huses
          exact old.uses
      | @reject err promise tail ctl top =>
        by_cases ep : π = promise
        · subst ep
          simp only [Move.promises, Heap.get_modify_self] at huses
          subst huses
          exact List.forall_mem_nil _
        · simp only [Move.promises, Heap.get_modify_ne _ _ ep] at huses
          subst huses
          exact old.uses
      | create =>
        simp only [Move.promises, Heap.get_push_lt _ hold] at huses
        subst huses
        exact old.uses
      | _ => simp only [Move.promises] at huses; subst huses; exact old.uses
  · rw [apply_promises] at hπ ⊢
    cases m with
    | create x before frames ctl =>
      have e : π = s.promises.size := Nat.eq_of_lt_succ_of_not_lt hπ hold
      subst e
      simp only [Move.promises, Heap.get_push_self]
      obtain ⟨-, -, huses, -, -, requests, -⟩ := h.created
      obtain ⟨hkey, hscope, hnamed⟩ := requests.slot c ctl_sound
      refine later.promise ⟨requests.owner_lt c ctl_sound, hkey, hscope, hnamed, ?_, by rw [huses]; exact List.forall_mem_nil _⟩ grows
      intro singleton away d hd
      rcases requests.home c ctl_sound singleton with e | ⟨-, holds⟩
      · exact absurd e away
      · exact (c.distinct d x.home _ _ hd holds rfl).1
    | _ => exact absurd hπ hold

theorem Sound.initial : Sound Sys.initial where
  ctl _ := trivial
  frames _ := nofun
  promises π h := by cases h

theorem Sound.later (h : Sound s) (l : Later s s') (g : Grows s s') (promises : s'.promises = s.promises)
    (contexts : s'.contexts = s.contexts) : Sound s' where
  ctl k := by
    have : s'.ctl k = s.ctl k := by rw [Sys.ctl, contexts]; rfl
    rw [this]; exact l.ctl (h.ctl k)
  frames k f hf := by
    have : s'.stack k = s.stack k := by rw [Sys.stack, contexts]; rfl
    rw [this] at hf; exact l.frame (h.frames k f hf)
  promises π hπ := by rw [promises] at hπ ⊢; exact l.promise (h.promises π hπ) g

theorem Sound.setContext (h : Sound s) {k : Nat} {stack : List Frame} {ctl : Ctl} (hctl : s.CtlSound ctl)
    (hstack : ∀ f ∈ stack, s.FrameSound f) : Sound (s.setContext k stack ctl) where
  ctl j := by
    change s.CtlSound ((s.contexts.set k ⟨stack, ctl⟩).get j).ctl
    rw [Heap.get_set]
    split
    · exact hctl
    · exact h.ctl j
  frames j f hf := by
    change f ∈ ((s.contexts.set k ⟨stack, ctl⟩).get j).stack at hf
    change s.FrameSound f
    rw [Heap.get_set] at hf
    split at hf
    · exact hstack f hf
    · exact h.frames j f hf
  promises π hπ := by
    have := h.promises π hπ
    exact ⟨this.owner, this.key, this.scope, this.named, this.away, this.uses⟩

theorem beginResolution_sound {start : Start} (c : Configured s) (h : start.container < s.containers.size) :
    (∀ f ∈ (beginResolution w start s).1, s.FrameSound f) ∧ s.CtlSound (beginResolution w start s).2 := by
  cases start with
  | resolve d t => exact ⟨List.forall_mem_nil _, h⟩
  | contribution d t index =>
    simp only [beginResolution]
    split
    · exact ⟨List.forall_mem_nil _, trivial⟩
    · rename_i p hp
      split
      · exact ⟨List.forall_mem_nil _, trivial⟩
      · obtain ⟨-, multi, a, -, holds⟩ := collectMultiProviders_holds c (List.mem_of_getElem? hp)
        exact ⟨fun f hf => by rw [List.mem_singleton.mp hf]; trivial, h, multi, (c.named a p holds).1⟩

theorem Reachable.sound (h : Reachable w s) : Sound s := by
  refine h.induction .initial fun s e s' reachable sound hs => ?_
  have l := reachable.ledger
  have c := reachable.configured
  have kind := step_kind hs
  have later := kind.later l c
  cases kind with
  | still q => exact sound.later later (.of_eq q.nextRef fun d => (q.config d).1) q.promises q.contexts
  | attempt _ q =>
    have q := advanceAttempt_fixed q
    exact sound.later later (.of_eq q.nextRef fun d => (q.config d).1) q.promises q.contexts
  | configure q => exact sound.later later (q.grows c) q.quiet.promises q.quiet.contexts
  | start start hc =>
    refine ⟨fun k => ?_, fun k f hf => ?_, fun π hπ => ?_⟩
    · change s.CtlSound ((s.contexts.push _).get k).ctl
      rw [Heap.get_push]
      split
      · dsimp only
        split
        · trivial
        · exact hc
      · exact sound.ctl k
    · change f ∈ ((s.contexts.push _).get k).stack at hf
      rw [Heap.get_push] at hf
      split at hf
      · cases hf
      · exact sound.frames k f hf
    · have := sound.promises π hπ
      exact ⟨this.owner, this.key, this.scope, this.named, this.away, this.uses⟩
  | @wake k t stack ctl hk woken =>
    have q := woken.still.toFixed
    have sound' := sound.later q.later (.of_eq q.nextRef fun d => (q.config d).1) q.promises q.contexts
    have waiting := sound.ctl k
    refine sound'.setContext ?_ ?_
    · cases woken with
      | round ctl => rw [ctl] at waiting; exact q.later.ctl (x := .stale _ _) waiting
      | begin ctl => rw [ctl] at waiting; exact (beginResolution_sound c waiting).2
      | errors => trivial
    · cases woken with
      | round | errors => exact nofun
      | begin ctl => rw [ctl] at waiting; exact (beginResolution_sound c waiting).1
  | @move k m _ hk hm =>
    refine ⟨fun j => ?_, fun j f hf => ?_, hm.promises_sound l c sound⟩
    · rw [apply_ctl]
      split
      · exact hm.ctl_sound l c sound
      · exact later.ctl (sound.ctl j)
    · rw [apply_stack] at hf
      split at hf
      · exact later.frame (hm.frames_sound c sound f hf)
      · exact later.frame (sound.frames j f hf)

end Sys

end Fluo.Di
