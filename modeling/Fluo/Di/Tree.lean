import Fluo.Di.Effects
import Fluo.Di.Records

/-!
# Registrations and the container tree

What holds of both in every state: records are filed under their token and are
distinct objects, also across containers, and `ancestors` is the chain of
parents up to container 0.
-/

namespace Fluo.Di

namespace Sys

variable {w : World} {s s' : Sys}

def registry (s : Sys) (c : Nat) : Registry := (s.containers.get c).registry

def ancestors (s : Sys) (c : Nat) : List Nat := (s.containers.get c).ancestors

structure Configured (s : Sys) : Prop where
  keyed : ∀ c, (s.registry c).Keyed
  sorted : ∀ c, (s.registry c).Sorted
  named : ∀ c p, (s.registry c).Holds p → p.ref < s.nextRef ∧ p.WellFormed
  distinct : ∀ c d p q, (s.registry c).Holds p → (s.registry d).Holds q → p.ref = q.ref → c = d ∧ p = q
  root : 0 < s.containers.size ∧ s.ancestors 0 = []
  parent : ∀ c < s.containers.size, c ≠ 0 → ∃ p rest, s.ancestors c = p :: rest ∧ p < c ∧ s.ancestors p = rest
  unborn : ∀ c, s.containers.size ≤ c → s.registry c = default ∧ s.ancestors c = []

theorem Configured.initial : Configured Sys.initial := by
  have empty : ∀ c, Sys.initial.containers.get c = default := by
    intro c
    simp only [Sys.initial, Heap.get_push]
    split <;> rfl
  have registry : ∀ c, Sys.initial.registry c = default := fun c => by rw [Sys.registry, empty]; rfl
  constructor
  · intro c; rw [registry]; exact Registry.default_keyed
  · intro c; rw [registry]; exact Registry.default_sorted
  · intro c p h; rw [registry] at h; exact absurd h Registry.default_holds
  · intro c d p q h; rw [registry] at h; exact absurd h Registry.default_holds
  · exact ⟨Nat.lt_succ_self _, by rw [Sys.ancestors, empty]; rfl⟩
  · intro c hc h0
    have : c < 1 := hc
    omega
  · intro c _; exact ⟨registry c, by rw [Sys.ancestors, empty]; rfl⟩

/-- Only registrations, ancestors, the number of containers and the supply of
names matter. -/
theorem Configured.congr (h : Configured s) (size : s'.containers.size = s.containers.size)
    (nextRef : s'.nextRef = s.nextRef) (registry : ∀ c, s'.registry c = s.registry c)
    (ancestors : ∀ c, s'.ancestors c = s.ancestors c) : Configured s' := by
  constructor
  · intro c; rw [registry]; exact h.keyed c
  · intro c; rw [registry]; exact h.sorted c
  · intro c p hp; rw [registry] at hp; rw [nextRef]; exact h.named c p hp
  · intro c d p q hp hq; rw [registry] at hp hq; exact h.distinct c d p q hp hq
  · rw [size, ancestors]; exact h.root
  · intro c hc h0
    rw [size] at hc
    obtain ⟨p, rest, hp, hlt, hrest⟩ := h.parent c hc h0
    exact ⟨p, rest, by rw [ancestors]; exact hp, hlt, by rw [ancestors]; exact hrest⟩
  · intro c hc; rw [size] at hc; rw [registry, ancestors]; exact h.unborn c hc

theorem Configured.setNextRef (h : Configured s) {ref : Nat} (href : s.nextRef ≤ ref) :
    Configured (setNextRef ref s) :=
  ⟨h.keyed, h.sorted, fun c p hp => ⟨Nat.lt_of_lt_of_le (h.named c p hp).1 href, (h.named c p hp).2⟩, h.distinct,
    h.root, h.parent, h.unborn⟩

theorem registry_setRegistry (c : Nat) (r : Registry) (s : Sys) (d : Nat) :
    (setRegistry c r s).registry d = if d = c then r else s.registry d := by
  simp only [registry, setRegistry, modifyContainer, Heap.get_modify]
  split <;> rfl

theorem ancestors_setRegistry (c : Nat) (r : Registry) (s : Sys) (d : Nat) :
    (setRegistry c r s).ancestors d = s.ancestors d :=
  s.containers.get_modify_proj c (fun x => { x with registry := r }) Container.ancestors rfl d

theorem Configured.setRegistry (h : Configured s) {c : Nat} {r : Registry} (hc : c < s.containers.size)
    (keyed : r.Keyed) (sorted : r.Sorted)
    (new : ∀ p, r.Holds p → (s.registry c).Holds p ∨ p.ref < s.nextRef ∧ p.WellFormed ∧
      ∀ d q, (s.registry d).Holds q ∨ (d = c ∧ r.Holds q) → q.ref = p.ref → d = c ∧ q = p) :
    Configured (setRegistry c r s) := by
  have holds {d : Nat} {q : NormalizedProvider} (hq : ((Sys.setRegistry c r s).registry d).Holds q) :
      (s.registry d).Holds q ∨ (d = c ∧ r.Holds q) := by
    rw [registry_setRegistry] at hq
    split at hq
    · rename_i e; exact .inr ⟨e, hq⟩
    · exact .inl hq
  constructor
  · intro d
    rw [registry_setRegistry]
    split
    · exact keyed
    · exact h.keyed d
  · intro d
    rw [registry_setRegistry]
    split
    · exact sorted
    · exact h.sorted d
  · intro d p hp
    rcases holds hp with hp | ⟨-, hp⟩
    · exact h.named d p hp
    · rcases new p hp with hp | ⟨lt, wf, -⟩
      · exact h.named c p hp
      · exact ⟨lt, wf⟩
  · intro d e p q hp hq href
    -- Each record is an old one or one of the new.
    have old_or_new {d : Nat} {p : NormalizedProvider}
        (hp : ((Sys.setRegistry c r s).registry d).Holds p) : (s.registry d).Holds p ∨
        (d = c ∧ ∀ d q, (s.registry d).Holds q ∨ (d = c ∧ r.Holds q) → q.ref = p.ref → d = c ∧ q = p) := by
      rcases holds hp with hp | ⟨hd, hp⟩
      · exact .inl hp
      · rcases new p hp with hp | ⟨-, -, apart⟩
        · exact .inl (hd ▸ hp)
        · exact .inr ⟨hd, apart⟩
    rcases old_or_new hp with hp' | ⟨hd, apart⟩
    · rcases old_or_new hq with hq' | ⟨he, apart⟩
      · exact h.distinct d e p q hp' hq' href
      · obtain ⟨h1, h2⟩ := apart d p (.inl hp') href
        exact ⟨h1.trans he.symm, h2⟩
    · obtain ⟨h1, h2⟩ := apart e q (holds hq) href.symm
      exact ⟨hd.trans h1.symm, h2.symm⟩
  · rw [ancestors_setRegistry]; exact h.root
  · intro d hd h0
    obtain ⟨p, rest, hp, hlt, hrest⟩ := h.parent d hd h0
    exact ⟨p, rest, by rw [ancestors_setRegistry]; exact hp, hlt, by rw [ancestors_setRegistry]; exact hrest⟩
  · intro d hd
    have hd : s.containers.size ≤ d := hd
    rw [registry_setRegistry, ancestors_setRegistry, if_neg (by omega)]
    exact h.unborn d hd

/-! ## The calls that change them -/

theorem Configured.registerAll (h : Configured s) {c : Nat} (hc : c < s.containers.size) (ds : List Provider) :
    Configured (Sys.registerAll w c ds s) := by
  induction ds generalizing s with
  | nil => exact h
  | cons d rest ih =>
    unfold Sys.registerAll
    dsimp only
    have next := h.setNextRef (Nat.le_succ s.nextRef)
    split
    · exact next
    · rename_i r hr
      refine ih ?_ hc
      obtain ⟨p, hp, rfl⟩ := Registry.registerOne_ok hr
      have href := World.normalizeProvider_ref hp
      have old {d : Nat} {q : NormalizedProvider} (hq : (s.registry d).Holds q) : q.ref ≠ p.ref := by
        have := (h.named d q hq).1
        omega
      refine next.setRegistry hc (Registry.add_keyed (h.keyed c) p) ((h.sorted c).add p) ?_
      intro q hq
      rcases Registry.add_holds hq with hq | rfl
      · exact .inl hq
      · refine .inr ⟨by rw [href]; exact Nat.lt_succ_self _, World.normalizeProvider_wellFormed hp, ?_⟩
        rintro d q' (hq' | ⟨hd, hq'⟩) e
        · exact absurd e (old hq')
        · rcases Registry.add_holds hq' with hq' | rfl
          · exact absurd e (old hq')
          · exact ⟨hd, rfl⟩

theorem Fixed.configured (q : Fixed s s') (h : Configured s) : Configured s' :=
  h.congr q.size q.nextRef (fun c => (q.config c).1) (fun c => (q.config c).2)

/-- Groups of one batch replace registrations one after another; `base` is the
first name of the batch. -/
theorem Configured.overrideAll (h : Configured s) {c base : Nat} {ps : List NormalizedProvider}
    (hc : c < s.containers.size)
    (batch : ∀ p ∈ ps, base ≤ p.ref ∧ p.ref < s.nextRef ∧ p.WellFormed)
    (distinct : ∀ p ∈ ps, ∀ q ∈ ps, p.ref = q.ref → p = q)
    (new : ∀ d q, (s.registry d).Holds q → base ≤ q.ref → d = c ∧ q ∈ ps)
    {groups : List (Token × List NormalizedProvider)}
    (hgroups : ∀ g ∈ groups, ∀ p ∈ g.2, p ∈ ps ∧ p.provide = g.1)
    (hsorted : ∀ g ∈ groups, replacementConflicts g.2 = false) :
    Configured (groups.foldl (overrideToken w c) s) := by
  induction groups generalizing s with
  | nil => exact h
  | cons g rest ih =>
    have still : Fixed s (s.invalidateInHierarchy w c g.1) := invalidateInHierarchy_fixed c g.1 s
    have hold := still.configured h
    have registry : ∀ d, (s.invalidateInHierarchy w c g.1).registry d = s.registry d := fun d => (still.config d).1
    have hg := hgroups g List.mem_cons_self
    have holds {q : NormalizedProvider}
        (hq : (((s.invalidateInHierarchy w c g.1).registry c).replace g.1 g.2).Holds q) :
        (s.registry c).Holds q ∨ q ∈ g.2 := by
      rw [registry] at hq
      exact Registry.replace_holds hq
    refine ih ?_ (still.size ▸ hc : c < (s.invalidateInHierarchy w c g.1).containers.size) ?_ ?_
      (fun g' hg' => hgroups g' (List.mem_cons_of_mem g hg'))
      fun g' hg' => hsorted g' (List.mem_cons_of_mem g hg')
    · refine hold.setRegistry (by rw [still.size]; exact hc)
        (Registry.replace_keyed (hold.keyed c) fun p hp => (hg p hp).2)
        ((hold.sorted c).replace (hsorted g List.mem_cons_self)) ?_
      intro q hq
      rcases holds hq with hq' | hq'
      · exact .inl (by rw [registry]; exact hq')
      · obtain ⟨lo, hi, wf⟩ := batch q (hg q hq').1
        refine .inr ⟨by rw [still.nextRef]; exact hi, wf, ?_⟩
        have same (d : Nat) (q' : NormalizedProvider) (hq'' : (s.registry d).Holds q') (e : q'.ref = q.ref) :
            d = c ∧ q' = q := by
          obtain ⟨hd, hmem⟩ := new d q' hq'' (e ▸ lo)
          exact ⟨hd, distinct q' hmem q (hg q hq').1 e⟩
        rintro d q' (hq'' | ⟨hd, hq''⟩) e
        · rw [registry] at hq''
          exact same d q' hq'' e
        · rcases holds hq'' with hq'' | hq''
          · exact ⟨hd, (same c q' hq'' e).2⟩
          · exact ⟨hd, distinct q' (hg q' hq'').1 q (hg q hq').1 e⟩
    · intro p hp
      obtain ⟨lo, hi, wf⟩ := batch p hp
      exact ⟨lo, by rw [show (overrideToken w c s g).nextRef = s.nextRef from still.nextRef]; exact hi, wf⟩
    · intro d q hq lo
      have hq : ((Sys.setRegistry c (((s.invalidateInHierarchy w c g.1).registry c).replace g.1 g.2)
        (s.invalidateInHierarchy w c g.1)).registry d).Holds q := hq
      rw [registry_setRegistry] at hq
      split at hq
      · rename_i hd
        rcases holds hq with hq | hq
        · exact ⟨hd, (new c q hq lo).2⟩
        · exact ⟨hd, (hg q hq).1⟩
      · rw [registry] at hq
        exact new d q hq lo

theorem validatedOverride_sorted {c : Nat} {groups : List (Token × List NormalizedProvider)}
    (h : validatedOverride w c groups s = .ok ()) : ∀ g ∈ groups, replacementConflicts g.2 = false := by
  unfold validatedOverride validateOverride at h
  generalize hfirst : @firstOf Id _ _ _ _ = introduced at h
  cases introduced with
  | some g => cases h
  | none =>
    intro g hg
    cases found : groups.find? (fun g => replacementConflicts g.2) with
    | some g =>
      rw [found] at h
      cases h
    | none => simpa using List.find?_eq_none.mp found g hg

theorem Configured.override (h : Configured s) {c : Nat} (hc : c < s.containers.size) (ds : List Provider) :
    Configured (Sys.override w c ds s) := by
  unfold Sys.override
  split
  · exact h
  dsimp only
  have next := h.setNextRef (Nat.le_add_right s.nextRef ds.length)
  split
  · exact next
  split
  · exact next
  rename_i ps hps _ valid
  obtain ⟨bounds, distinct⟩ := normalizeBatch_spec hps
  refine next.overrideAll hc bounds distinct ?_ ?_ (validatedOverride_sorted valid)
  · intro d q hq lo
    have := (h.named d q hq).1
    omega
  · intro g hg p hp
    have hget := OrderedMap.mem_entries.mp (show (g.1, g.2) ∈ _ from hg)
    exact ⟨groupByToken_mem hget p hp, groupByToken_keyed hget p hp⟩

theorem Configured.createRequestScope (h : Configured s) {c : Nat} (hc : c < s.containers.size) :
    Configured (Sys.createRequestScope c s) := by
  unfold Sys.createRequestScope
  split
  · exact h
  generalize hs' : ({ s with containers := _ } : Sys) = s'
  have registry : ∀ d, s'.registry d = s.registry d := by
    intro d
    subst hs'
    simp only [Sys.registry, Heap.get_push]
    split
    · rename_i e; subst e; exact (h.unborn _ (Nat.le_refl _)).1.symm
    · rfl
  have ancestors : ∀ d, s'.ancestors d = if d = s.containers.size then s.lineage c else s.ancestors d := by
    intro d
    subst hs'
    simp only [Sys.ancestors, Heap.get_push]
    split <;> rfl
  have size : s'.containers.size = s.containers.size + 1 := by subst hs'; rfl
  have nextRef : s'.nextRef = s.nextRef := by subst hs'; rfl
  constructor
  · intro d; rw [registry]; exact h.keyed d
  · intro d; rw [registry]; exact h.sorted d
  · intro d p hp; rw [registry] at hp; rw [nextRef]; exact h.named d p hp
  · intro d d' p q hp hq; rw [registry] at hp hq; exact h.distinct d d' p q hp hq
  · rw [size, ancestors, if_neg (Nat.ne_of_lt h.root.1)]
    exact ⟨Nat.succ_pos _, h.root.2⟩
  · intro d hd h0
    rw [size] at hd
    by_cases e : d = s.containers.size
    · rw [ancestors, if_pos e]
      refine ⟨c, _, rfl, e ▸ hc, ?_⟩
      rw [ancestors, if_neg (Nat.ne_of_lt hc)]
      rfl
    · obtain ⟨p, rest, hp, hlt, hrest⟩ := h.parent d (by omega) h0
      refine ⟨p, rest, by rw [ancestors, if_neg e]; exact hp, hlt, ?_⟩
      rw [ancestors, if_neg (by omega)]
      exact hrest
  · intro d hd
    rw [size] at hd
    rw [registry, ancestors, if_neg (by omega)]
    exact h.unborn d (by omega)

/-! ## Names are not used twice -/

structure Grows (s s' : Sys) : Prop where
  nextRef : s.nextRef ≤ s'.nextRef
  holds : ∀ c p, (s'.registry c).Holds p → (s.registry c).Holds p ∨ s.nextRef ≤ p.ref

theorem Grows.of_eq (nextRef : s'.nextRef = s.nextRef) (registry : ∀ c, s'.registry c = s.registry c) :
    Grows s s' :=
  ⟨Nat.le_of_eq nextRef.symm, fun c p hp => .inl (by rw [← registry]; exact hp)⟩

theorem Grows.trans {s'' : Sys} (h : Grows s s') (h' : Grows s' s'') : Grows s s'' := by
  refine ⟨Nat.le_trans h.nextRef h'.nextRef, fun c p hp => ?_⟩
  rcases h'.holds c p hp with hp | hp
  · exact h.holds c p hp
  · exact .inr (Nat.le_trans h.nextRef hp)

theorem grows_setNextRef {ref : Nat} (s : Sys) (href : s.nextRef ≤ ref) : Grows s (setNextRef ref s) :=
  ⟨href, fun _ _ hp => .inl hp⟩

theorem Grows.setRegistry {t : Sys} (h : Grows s t) {c : Nat} {r : Registry}
    (new : ∀ p, r.Holds p → (t.registry c).Holds p ∨ s.nextRef ≤ p.ref) : Grows s (setRegistry c r t) := by
  refine ⟨h.nextRef, fun d p hp => ?_⟩
  rw [registry_setRegistry] at hp
  split at hp
  · rename_i e
    rcases new p hp with hp | hp
    · exact h.holds d p (e ▸ hp)
    · exact .inr hp
  · exact h.holds d p hp

theorem grows_registerAll (c : Nat) (ds : List Provider) (s : Sys) : Grows s (registerAll w c ds s) := by
  induction ds generalizing s with
  | nil => exact .of_eq rfl fun _ => rfl
  | cons d rest ih =>
    unfold registerAll
    dsimp only
    have next := grows_setNextRef s (Nat.le_succ s.nextRef)
    split
    · exact next
    · rename_i r hr
      obtain ⟨p, hp, rfl⟩ := Registry.registerOne_ok hr
      refine (next.setRegistry fun q hq => ?_).trans (ih _)
      rcases Registry.add_holds hq with hq | rfl
      · exact .inl hq
      · exact .inr (Nat.le_of_eq (World.normalizeProvider_ref hp).symm)

theorem grows_overrideAll {c base : Nat} {ps : List NormalizedProvider} (batch : ∀ p ∈ ps, base ≤ p.ref)
    {groups : List (Token × List NormalizedProvider)} (hgroups : ∀ g ∈ groups, ∀ p ∈ g.2, p ∈ ps) {t : Sys}
    (h : Grows s t) (hbase : s.nextRef ≤ base) : Grows s (groups.foldl (overrideToken w c) t) := by
  induction groups generalizing t with
  | nil => exact h
  | cons g rest ih =>
    refine ih (fun g' hg' => hgroups g' (List.mem_cons_of_mem g hg')) ?_
    have fixed := invalidateInHierarchy_fixed (w := w) c g.1 t
    have evicted : Grows s (t.invalidateInHierarchy w c g.1) :=
      h.trans (.of_eq fixed.nextRef fun d => (fixed.config d).1)
    refine evicted.setRegistry fun q hq => ?_
    rcases Registry.replace_holds hq with hq | hq
    · exact .inl hq
    · exact .inr (Nat.le_trans hbase (batch q (hgroups g List.mem_cons_self q hq)))

theorem Configures.grows {e : Event} (h : Configured s) (q : Configures w s e s') : Grows s s' := by
  cases q with
  | register ds =>
    unfold Sys.register
    split
    · exact .of_eq rfl fun _ => rfl
    · exact grows_registerAll _ ds s
  | override ds =>
    unfold Sys.override
    split
    · exact .of_eq rfl fun _ => rfl
    dsimp only
    have next := grows_setNextRef s (Nat.le_add_right s.nextRef ds.length)
    split
    · exact next
    split
    · exact next
    rename_i ps hps _ _
    refine grows_overrideAll (fun p hp => ((normalizeBatch_spec hps).1 p hp).1) ?_ next (Nat.le_refl _)
    intro g hg p hp
    exact groupByToken_mem (OrderedMap.mem_entries.mp (show (g.1, g.2) ∈ _ from hg)) p hp
  | createRequestScope hc =>
    unfold Sys.createRequestScope
    split
    · exact .of_eq rfl fun _ => rfl
    · refine .of_eq rfl fun d => ?_
      simp only [Sys.registry, Heap.get_push]
      split
      · rename_i e; subst e; exact (h.unborn _ (Nat.le_refl _)).1.symm
      · rfl

theorem Configured.kind {e : Event} (h : Configured s) (hs : StepKind w s e s') : Configured s' := by
  cases hs with
  | still q => exact q.toFixed.configured h
  | attempt _ q => exact (advanceAttempt_fixed q).configured h
  | configure q =>
    cases q with
    | register ds hc =>
      unfold Sys.register
      split
      · exact h
      · exact h.registerAll hc ds
    | override ds hc => exact h.override hc ds
    | createRequestScope hc => exact h.createRequestScope hc
  | start => exact h.congr rfl rfl (fun _ => rfl) (fun _ => rfl)
  | wake hk woken => exact (woken.still.toFixed.configured h).congr rfl rfl (fun _ => rfl) (fun _ => rfl)
  | move _ hk hm =>
    exact h.congr (apply_containers_size s _ _) (apply_nextRef s _ _) (fun c => (apply_container s _ _ c).1)
      (fun c => (apply_container s _ _ c).2)

theorem Reachable.configured (h : Reachable w s) : Configured s :=
  h.induction Configured.initial fun _ _ _ _ hi hs => hi.kind (step_kind hs)

end Sys

end Fluo.Di
