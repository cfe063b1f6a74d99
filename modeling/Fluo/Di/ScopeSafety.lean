import Fluo.Di.Ledger
import Fluo.Di.ScopeGraph
import Fluo.Di.Tree

/-!
# Singletons do not capture request-scoped providers

A singleton's frames lie on the promise they settle, and that promise was
made only after the scope assertion passed. A refused singleton is rejected
at once.
-/

namespace Fluo.Di

namespace Sys

variable {w : World} {s s' : Sys} {k : Nat}

/-- What the scope assertion said when the promise was made. -/
def asserted (w : World) (m : Materialization) : Option DiError :=
  (m.view.queries w).assertSingletonDependencyScopes m.provider

/-- The context of a refused promise has nothing left to do but to reject it. -/
def Refusing (s : Sys) (π : Nat) (e : DiError) : Prop :=
  (s.promises.get π).status = .rejected [.di e] ∨ (s.promises.get π).status = .pending ∧
    s.ctl (s.promises.get π).context = .fail [.di e] ∧
    ∃ tail, s.stack (s.promises.get π).context = .settle π :: tail

structure ScopesAsserted (w : World) (s : Sys) : Prop where
  frames : ∀ k c p rest values uses tail, .deps c p rest values uses :: tail <:+ s.stack k →
    p.scope ≠ .transient → ∃ π tail', tail = .settle π :: tail' ∧ (s.promises.get π).provider = p ∧
      (s.promises.get π).owner = c ∧ asserted w (s.promises.get π) = none
  refused : ∀ π < s.promises.size, ∀ e, asserted w (s.promises.get π) = some e → s.Refusing π e
  keyed : ∀ π < s.promises.size, (s.promises.get π).view.Keyed

theorem Requests.not_failing {before : List Frame} {owner : Nat} {key : CacheKey} {p : NormalizedProvider}
    {home : Except DiError Nat} (h : s.Requests k before owner key p home) (e : Rejection) :
    s.ctl k ≠ .fail e := by
  cases h with
  | single ctl => rw [ctl]; nofun
  | contribution ctl => rw [ctl]; nofun

theorem Moves.of_failing {m : Move} {e : Rejection} {π : Nat} {tail : List Frame} (h : Moves w s k m)
    (failing : s.ctl k = .fail e) (top : s.stack k = .settle π :: tail) : m = .reject π e := by
  cases h with
  | reject ctl top' =>
    rw [failing] at ctl
    rw [top] at top'
    cases ctl
    cases top'
    rfl
  | failed ctl top' => rw [top] at top'; cases top'
  | unwind ctl top' frame =>
    rw [top] at top'
    cases top'
    exact absurd rfl (frame π)
  | refused requests | cached requests | create requests => exact absurd failing (requests.not_failing e)
  | _ => simp_all

/-- Where the frames of a factory come from: from the stack before the move,
with less left to resolve, or from a new promise, or it is transient. -/
theorem Moves.deps_frames {m : Move} (h : Moves w s k m) {c : Nat} {p : NormalizedProvider}
    {rest : List InjectionToken} {values : List Val} {uses : List Nat} {tail : List Frame}
    (hs : .deps c p rest values uses :: tail <:+ Move.stack s k m) :
    (∃ rest' values' uses', .deps c p rest' values' uses' :: tail <:+ s.stack k) ∨ p.scope = .transient ∨
      ∃ x before frames ctl, m = .create x before frames ctl ∧ tail = .settle s.promises.size :: (before ++ s.stack k) ∧
        x.provider = p ∧ x.owner = c ∧ asserted w x = none := by
  have old (hs : .deps c p rest values uses :: tail <:+ s.stack k) :
      ∃ rest' values' uses', .deps c p rest' values' uses' :: tail <:+ s.stack k := ⟨_, _, _, hs⟩
  have below {f : Frame} {fs : List Frame} (hs : .deps c p rest values uses :: tail <:+ f :: fs)
      (hf : f ≠ .deps c p rest values uses) : .deps c p rest values uses :: tail <:+ fs := by
    rcases List.suffix_cons_iff.mp hs with e | hs
    · cases e; exact absurd rfl hf
    · exact hs
  -- The frames of an instantiation.
  have inst {owner : Nat} {q : NormalizedProvider} {fs : List Frame}
      (hs : .deps c p rest values uses :: tail <:+ (s.instantiate w owner q).1 ++ fs) :
      .deps c p rest values uses :: tail <:+ fs ∨
        c = owner ∧ p = q ∧ tail = fs ∧ s.scopeError w owner q = none := by
    unfold instantiate at hs
    split at hs
    · exact .inl hs
    · rename_i passed
      split at hs
      · exact .inl hs
      · exact .inl hs
      · rcases List.suffix_cons_iff.mp hs with e | hs
        · cases e; exact .inr ⟨rfl, rfl, rfl, passed⟩
        · exact .inl hs
      · rcases List.suffix_cons_iff.mp hs with e | hs
        · cases e; exact .inr ⟨rfl, rfl, rfl, passed⟩
        · exact .inl hs
  have entered {before : List Frame} {owner : Nat} {key : CacheKey} {q : NormalizedProvider}
      {home : Except DiError Nat} (requests : s.Requests k before owner key q home)
      (hs : .deps c p rest values uses :: tail <:+ before ++ s.stack k) :
      .deps c p rest values uses :: tail <:+ s.stack k := by
    cases requests with
    | single _ _ _ _ _ _ entered =>
      rcases entered with rfl | ⟨rfl, -⟩
      · exact below hs (by simp)
      · exact hs
    | contribution => exact hs
  have popped {f : Frame} {fs : List Frame} (top : s.stack k = f :: fs)
      (hs : .deps c p rest values uses :: tail <:+ (s.stack k).tail) :
      .deps c p rest values uses :: tail <:+ s.stack k := by
    rw [top] at hs ⊢
    exact hs.trans (List.suffix_cons f fs)
  cases h with
  | cycle | unregistered | aliasContribution | runFactory | awaited | awaitFailed | returned | failed =>
    exact .inl (old hs)
  | multi => exact .inl (old (below (below hs (by simp)) (by simp)))
  | aliasToken => exact .inl (old (below hs (by simp)))
  | transientToken _ _ _ _ _ scope =>
    simp only [Move.stack, List.append_assoc] at hs
    rcases inst hs with hs | ⟨-, rfl, -⟩
    · exact .inl (old (below hs (by simp)))
    · exact .inr (.inl scope)
  | transientContribution _ _ scope =>
    rcases inst hs with hs | ⟨-, rfl, -⟩
    · exact .inl (old hs)
    · exact .inr (.inl scope)
  | refused requests => exact .inl (old (entered requests hs))
  | cached requests => exact .inl (old (entered requests hs))
  | create requests =>
    simp only [Move.stack, List.append_assoc, List.cons_append] at hs
    rcases inst hs with hs | ⟨rfl, rfl, rfl, passed⟩
    · exact .inl (old (entered requests (below hs (by simp))))
    · exact .inr (.inr ⟨_, _, _, _, rfl, rfl, rfl, rfl, passed⟩)
  | skipDependency _ top | evalDependency _ top | supplied _ top =>
    simp only [Move.stack, top, List.tail_cons] at hs
    rcases List.suffix_cons_iff.mp hs with e | hs
    · cases e; exact .inl ⟨_, _, _, [], top.symm⟩
    · exact .inl (old (by rw [top]; exact hs.trans (List.suffix_cons _ _)))
  | nextContribution _ top | contributed _ top =>
    simp only [Move.stack, top, List.tail_cons] at hs
    exact .inl (old (by rw [top]; exact (below hs (by simp)).trans (List.suffix_cons _ _)))
  | collected _ top | leave _ top | fulfil _ top | reject _ top | unwind _ top =>
    exact .inl (old (popped top hs))
  | made _ _ top | shared _ _ top | thrown _ _ top => exact .inl (old (popped top hs))

theorem beginResolution_factories (start : Start) (s : Sys) (c : Nat) (p : NormalizedProvider)
    (rest : List InjectionToken) (values : List Val) (uses : List Nat) :
    .deps c p rest values uses ∉ (beginResolution w start s).1 := by
  cases start with
  | resolve c t => simp [beginResolution]
  | contribution c t index =>
    simp only [beginResolution]
    split
    · simp
    · split <;> simp

/-! ## The invariant is kept -/

theorem ScopesAsserted.initial : ScopesAsserted w Sys.initial where
  frames k c p rest values uses tail h := by
    have : Sys.initial.stack k = [] := rfl
    rw [this] at h
    exact absurd (List.suffix_nil.mp h) (List.cons_ne_nil _ _)
  refused π h := by cases h
  keyed π h := by cases h

theorem ScopesAsserted.quiet (h : ScopesAsserted w s) (q : Quiet s s') : ScopesAsserted w s' := by
  have stack : ∀ k, s'.stack k = s.stack k := fun k => by rw [Sys.stack, q.contexts]; rfl
  have ctl : ∀ k, s'.ctl k = s.ctl k := fun k => by rw [Sys.ctl, q.contexts]; rfl
  constructor
  · intro k; rw [stack, q.promises]; exact h.frames k
  · intro π; rw [q.promises]; intro hπ e he
    have := h.refused π hπ e he
    rwa [Refusing, q.promises, ctl, stack]
  · intro π; rw [q.promises]; exact h.keyed π

/-- A context that was not resolving anything gets a stack without factories. -/
theorem ScopesAsserted.setContext (h : ScopesAsserted w s) {k : Nat} {stack : List Frame} {ctl : Ctl}
    (old : s.stack k = []) (new : ∀ c p rest values uses tail,
      ¬ .deps c p rest values uses :: tail <:+ stack) : ScopesAsserted w (s.setContext k stack ctl) := by
  have hstack : ∀ j, (s.setContext k stack ctl).stack j = if j = k then stack else s.stack j := by
    intro j; simp only [Sys.stack, Sys.setContext, Heap.get_set]; split <;> rfl
  have hctl : ∀ j, (s.setContext k stack ctl).ctl j = if j = k then ctl else s.ctl j := by
    intro j; simp only [Sys.ctl, Sys.setContext, Heap.get_set]; split <;> rfl
  constructor
  · intro j c p rest values uses tail hs
    rw [hstack] at hs
    split at hs
    · exact absurd hs (new c p rest values uses tail)
    · exact h.frames j c p rest values uses tail hs
  · intro π hπ e he
    rcases h.refused π hπ e he with done | ⟨pending, failing, tail, top⟩
    · exact .inl done
    · have : (s.promises.get π).context ≠ k := by
        intro e'; rw [e', old] at top; cases top
      refine .inr ⟨pending, ?_, tail, ?_⟩
      · change (s.setContext k stack ctl).ctl (s.promises.get π).context = _
        rw [hctl, if_neg this]; exact failing
      · change (s.setContext k stack ctl).stack (s.promises.get π).context = _
        rw [hstack, if_neg this]; exact top
  · exact h.keyed

theorem ScopesAsserted.start (h : ScopesAsserted w s) (l : Ledger s) (start : Start) :
    ScopesAsserted w (startContext start s) := by
  have old : ∀ j, j ≠ s.contexts.size → (startContext start s).contexts.get j = s.contexts.get j := by
    intro j hj; simp only [startContext, Heap.get_push, hj, ↓reduceIte]
  have hstack : ∀ j, (startContext start s).stack j = s.stack j := by
    intro j
    by_cases hj : j = s.contexts.size
    · rw [hj, (l.unborn _ (Nat.le_refl _)).1]
      simp only [Sys.stack, startContext, Heap.get_push, ↓reduceIte]
    · simp only [Sys.stack, old j hj]
  constructor
  · intro j; rw [hstack]; exact h.frames j
  · intro π hπ e he
    have hk : (s.promises.get π).context ≠ s.contexts.size := Nat.ne_of_lt (l.born π hπ)
    rcases h.refused π hπ e he with done | ⟨pending, failing, top⟩
    · exact .inl done
    · refine .inr ⟨pending, ?_, ?_⟩
      · change ((startContext start s).contexts.get (s.promises.get π).context).ctl = _
        rw [old _ hk]; exact failing
      · change ∃ tail, (startContext start s).stack (s.promises.get π).context = _
        rw [hstack]; exact top
  · exact h.keyed

theorem ScopesAsserted.move (h : ScopesAsserted w s) (l : Ledger s) (c : Configured s) {m : Move}
    (hm : Moves w s k m) : ScopesAsserted w (s.apply k m) := by
  have fixed : ∀ π < s.promises.size,
      ((s.apply k m).promises.get π).provider = (s.promises.get π).provider ∧
      ((s.apply k m).promises.get π).owner = (s.promises.get π).owner ∧
      ((s.apply k m).promises.get π).view = (s.promises.get π).view ∧
      ((s.apply k m).promises.get π).context = (s.promises.get π).context := by
    intro π hπ
    rcases hm.promise hπ with e | ⟨-, _, _, -, e⟩ <;> rw [e] <;> exact ⟨rfl, rfl, rfl, rfl⟩
  have same : ∀ π < s.promises.size,
      asserted w ((s.apply k m).promises.get π) = asserted w (s.promises.get π) := by
    intro π hπ
    obtain ⟨hp, -, hv, -⟩ := fixed π hπ
    rw [asserted, asserted, hp, hv]
  have created {x : Materialization} {before frames : List Frame} {ctl : Ctl}
      (e : m = .create x before frames ctl) : (s.apply k m).promises.get s.promises.size = x := by
    subst e; rw [apply_promises]; exact Heap.get_push_self _ x
  have new {π : Nat} (hπ : π < (s.apply k m).promises.size) (hn : ¬ π < s.promises.size) :
      π = s.promises.size ∧ ∃ x before frames ctl, m = .create x before frames ctl := by
    rw [apply_promises] at hπ
    cases m with
    | create x before frames ctl => exact ⟨Nat.eq_of_lt_succ_of_not_lt hπ hn, x, before, frames, ctl, rfl⟩
    | _ => exact absurd hπ hn
  constructor
  · intro j c p rest values uses tail hs scope
    have old {rest values uses} (hs : .deps c p rest values uses :: tail <:+ s.stack j) :
        ∃ π tail', tail = .settle π :: tail' ∧ ((s.apply k m).promises.get π).provider = p ∧
          ((s.apply k m).promises.get π).owner = c ∧ asserted w ((s.apply k m).promises.get π) = none := by
      obtain ⟨π, tail', rfl, hp, ho, ha⟩ := h.frames j c p _ _ _ tail hs scope
      have hπ : π < s.promises.size := by
        refine (l.owed j π ?_).1
        refine List.mem_filterMap.mpr ⟨.settle π, hs.subset ?_, rfl⟩
        exact List.mem_cons_of_mem _ List.mem_cons_self
      exact ⟨π, tail', rfl, by rw [(fixed π hπ).1]; exact hp, by rw [(fixed π hπ).2.1]; exact ho,
        by rw [same π hπ]; exact ha⟩
    rw [apply_stack] at hs
    split at hs
    · rename_i e
      subst e
      rcases hm.deps_frames hs with ⟨_, _, _, hs⟩ | transient | ⟨x, before, frames, ctl, e, rfl, hp, ho, ha⟩
      · exact old hs
      · exact absurd transient scope
      · exact ⟨_, _, rfl, by rw [created e]; exact hp, by rw [created e]; exact ho, by rw [created e]; exact ha⟩
    · exact old hs
  · intro π hπ e he
    by_cases hold : π < s.promises.size
    · rw [same π hold] at he
      have hcontext := (fixed π hold).2.2.2
      rcases h.refused π hold e he with done | ⟨pending, failing, tail, top⟩
      · rcases hm.promise hold with e' | ⟨owed, -⟩
        · exact .inl (by rw [e']; exact done)
        · exact absurd (l.owed k π owed).2.2 (by rw [done]; nofun)
      · by_cases hk : (s.promises.get π).context = k
        · rw [hk] at failing top
          have := hm.of_failing failing top
          subst this
          refine .inl ?_
          rw [apply_promises]
          simp [Move.promises]
        · refine .inr ⟨?_, ?_, tail, ?_⟩
          · rcases hm.promise hold with e' | ⟨owed, -⟩
            · rw [e']; exact pending
            · exact absurd (l.owed k π owed).2.1 hk
          · rw [hcontext, apply_ctl, if_neg hk]; exact failing
          · rw [hcontext, apply_stack, if_neg hk]; exact top
    · obtain ⟨rfl, x, before, frames, ctl, rfl⟩ := new hπ hold
      rw [created rfl] at he
      obtain ⟨hcontext, hstatus, -, hview, -, -, hmade⟩ := hm.created
      have refuses : (frames, ctl) = ([], .fail [.di e]) := by
        rw [hmade, instantiate]
        have : s.scopeError w x.owner x.provider = some e := by rw [← he, asserted, hview]; rfl
        rw [this]
      obtain ⟨rfl, rfl⟩ := Prod.mk.inj refuses
      refine .inr ⟨by rw [created rfl]; exact hstatus, ?_, before ++ s.stack k, ?_⟩
      · rw [created rfl, hcontext, apply_ctl, if_pos rfl]; rfl
      · rw [created rfl, hcontext, apply_stack, if_pos rfl]; rfl
  · intro π hπ
    by_cases hold : π < s.promises.size
    · rw [(fixed π hold).2.2.1]; exact h.keyed π hold
    · obtain ⟨rfl, x, before, frames, ctl, rfl⟩ := new hπ hold
      rw [created rfl, hm.created.2.2.2.1]
      refine View.keyed_of_registries fun r hr => ?_
      obtain ⟨d, -, rfl⟩ := List.mem_map.mp hr
      exact c.keyed d

theorem Reachable.scopesAsserted (h : Reachable w s) : ScopesAsserted w s := by
  refine h.induction .initial fun s e s' reachable hi hs => ?_
  have l := reachable.ledger
  cases step_kind hs with
  | still q => exact hi.quiet q.toQuiet
  | attempt _ q => exact hi.quiet (advanceAttempt_fixed q).toQuiet
  | configure q => exact hi.quiet q.quiet
  | start start _ => exact hi.start l start
  | @wake k t stack ctl hk woken =>
    have q := woken.still.toQuiet
    refine (hi.quiet q).setContext ?_ ?_
    · rw [Sys.stack, q.contexts]
      cases woken with
      | round ctl | begin ctl | errors ctl => exact l.asleep k _ _ ctl
    · intro c p rest values uses tail suffix
      cases woken with
      | round | errors => exact absurd (List.suffix_nil.mp suffix) (List.cons_ne_nil _ _)
      | begin => exact absurd (suffix.subset List.mem_cons_self) (beginResolution_factories _ _ _ _ _ _ _)
  | move _ hk hm => exact hi.move l reachable.configured hm

/-! ## What it means for singletons -/

/-- A factory of a singleton runs only for a promise of that singleton from
whose injects, as its owner saw them, no request-scoped provider is reachable.
A singleton with such a provider behind it is rejected before anything of it
has run: its promise is rejected, or nothing lies on it and its context is
about to reject it. -/
structure CapturesNothing (w : World) (s : Sys) : Prop where
  runs : ∀ k c p rest values uses tail, s.ctl k = .running → s.stack k = .deps c p rest values uses :: tail →
    p.scope = .singleton → ∃ π tail', tail = .settle π :: tail' ∧ (s.promises.get π).provider = p ∧
      (s.promises.get π).owner = c ∧ ¬ (s.promises.get π).view.ReachesRequest w [] [] p
  rejects : ∀ π < s.promises.size, (s.promises.get π).provider.scope = .singleton →
    (s.promises.get π).view.ReachesRequest w [] [] (s.promises.get π).provider →
    ∃ e, s.Refusing π e ∧ (e.errorClass = .ScopeMismatchError ∨
      (s.promises.get π).view.ReachesAliasCycle w (s.promises.get π).provider)

/-- In a run that resolves only assertable singletons. -/
theorem singletons_capture_nothing (h : Reachable w s)
    (assertable : ∀ π < s.promises.size, (s.promises.get π).provider.scope = .singleton →
      (s.promises.get π).view.Assertable w (s.promises.get π).provider) : CapturesNothing w s := by
  have inv := h.scopesAsserted
  have refusal (π : Nat) (hπ : π < s.promises.size) (singleton : (s.promises.get π).provider.scope = .singleton)
      (reaches : (s.promises.get π).view.ReachesRequest w [] [] (s.promises.get π).provider) :=
    View.scopes_refused (inv.keyed π hπ) singleton (assertable π hπ singleton) reaches
  constructor
  · intro k c p rest values uses tail _ top singleton
    obtain ⟨π, tail', rfl, hp, ho, passed⟩ := inv.frames k c p rest values uses tail
      (top ▸ List.suffix_rfl) (by rw [singleton]; nofun)
    refine ⟨π, tail', rfl, hp, ho, fun reaches => ?_⟩
    have hπ : π < s.promises.size := by
      refine (h.ledger.owed k π ?_).1
      rw [owed, top]
      simp [Frame.settles]
    obtain ⟨e, he, -⟩ := refusal π hπ (by rw [hp]; exact singleton) (by rw [hp]; exact reaches)
    rw [asserted, he] at passed
    cases passed
  · intro π hπ singleton reaches
    obtain ⟨e, he, hclass⟩ := refusal π hπ singleton reaches
    exact ⟨e, inv.refused π hπ e he, hclass⟩

def factory (t : String) (f : Nat) (inject : List InjectionToken) (scope : Option Scope) (multi : Bool) :
    Provider :=
  .factoryProvider (.str t) f inject scope none multi

/-- The root resolves a singleton that injects a request-scoped provider. -/
def mismatchRun : List Event :=
  [Event.register 0 [factory "R" 0 [] (some .request) false, factory "P" 1 [.token (.str "R")] none false],
    .resolve 0 (.str "P")] ++ List.replicate 3 (Event.context 0)

theorem View.reaches_direct {v : View} {avoid own : List Token} {p q : NormalizedProvider} {t : Token}
    (ht : t ∈ v.entryTokens w p.inject) (found : v.lookupProvider t = some q) (direct : q.useExisting = none)
    (request : q.scope = .request) (avoided : t ∉ avoid) (other : t ∉ own) : v.ReachesRequest w avoid own p :=
  ⟨t, ht, t, q, .here other, ⟨t, .here avoided, .inr ⟨found, direct⟩⟩, request⟩

theorem mismatch_captures_nothing : ∃ s, run default initial mismatchRun = some s ∧
    CapturesNothing default s ∧
    (s.promises.get 0).status = .rejected [.di (.scopeMismatch (.str "P") (.str "R"))] := by
  obtain ⟨s, hs, size, status, tokens, found, falsy, provide⟩ := run_eval (w := default) (s := initial)
    mismatchRun (fun s => s.promises.size = 1 ∧
      (s.promises.get 0).status = .rejected [.di (.scopeMismatch (.str "P") (.str "R"))] ∧
      (s.promises.get 0).view.entryTokens default (s.promises.get 0).provider.inject = [.str "R"] ∧
      ((s.promises.get 0).view.lookupProvider (.str "R")).map (fun q => (q.useExisting, q.scope)) =
        some (none, .request) ∧
      (s.promises.get 0).view.falsyRequests = [] ∧ (s.promises.get 0).provider.provide = .str "P")
    (by decide +kernel)
  obtain ⟨q, hq, hscope⟩ := Option.map_eq_some_iff.mp found
  obtain ⟨direct, request⟩ := Prod.mk.inj hscope
  refine ⟨s, hs, singletons_capture_nothing ⟨_, hs⟩ fun π hπ _ _ => ?_, status⟩
  have : π = 0 := by omega
  subst this
  exact View.reaches_direct (by rw [tokens]; exact List.mem_singleton_self _) hq direct request
    (by rw [falsy]; exact List.not_mem_nil) (by rw [provide]; decide)

/-- A request scope overrides a singleton to inject a request-scoped provider
that is registered under the empty string. -/
def emptyTokenRun : List Event :=
  [Event.register 0 [factory "" 0 [] (some .request) false, factory "P" 1 [] none false], .createRequestScope 0,
    .override 1 [factory "P" 2 [.token (.str "")] none false], .resolve 1 (.str "P")] ++
  List.replicate 5 (Event.context 0) ++ [Event.factory 0 (.fresh false)] ++ List.replicate 4 (Event.context 0)

/-- A singleton contribution reaches a later request-scoped contribution to its
own token through a dependency that is cached already. -/
def ownTokenRun : List Event :=
  [Event.register 0 [factory "A" 0 [.optional (.str "T")] none false], .resolve 0 (.str "A")] ++
  List.replicate 4 (Event.context 0) ++ [Event.factory 0 (.fresh false)] ++ List.replicate 3 (Event.context 0) ++
  [Event.register 0 [factory "T" 1 [.token (.str "A")] none true, factory "T" 2 [] (some .request) true],
    .resolveMultiContribution 0 (.str "T") 0] ++ List.replicate 7 (Event.context 1)

theorem captured_under_empty_token :
    ∃ s, run default initial emptyTokenRun = some s ∧ ¬ CapturesNothing default s := by
  obtain ⟨s, hs, running, top, tokens, found⟩ := run_eval (w := default) (s := initial)
    emptyTokenRun (fun s => s.ctl 0 = .running ∧
      s.stack 0 = [.deps 1 ⟨2, .str "P", .singleton, .useFactory 2, [.token (.str "")], false⟩ [] [.object 0] [1],
        .settle 0, .enter (.str "P")] ∧
      (s.promises.get 0).view.entryTokens default [.token (.str "")] = [.str ""] ∧
      ((s.promises.get 0).view.lookupProvider (.str "")).map (fun q => (q.useExisting, q.scope)) =
        some (none, .request)) (by decide +kernel)
  obtain ⟨q, hq, hscope⟩ := Option.map_eq_some_iff.mp found
  obtain ⟨direct, request⟩ := Prod.mk.inj hscope
  refine ⟨s, hs, fun h => ?_⟩
  obtain ⟨π, tail, htail, -, -, unreached⟩ := h.runs 0 _ _ _ _ _ _ running top rfl
  cases htail
  exact unreached (View.reaches_direct (by rw [tokens]; exact List.mem_singleton_self _) hq direct request
    List.not_mem_nil List.not_mem_nil)

theorem captured_behind_own_token :
    ∃ s, run default initial ownTokenRun = some s ∧ ¬ CapturesNothing default s := by
  obtain ⟨s, hs, running, top, tokens, found, contribution⟩ := run_eval (w := default) (s := initial)
    ownTokenRun (fun s => s.ctl 1 = .running ∧
      s.stack 1 = [.deps 0 ⟨1, .str "T", .singleton, .useFactory 1, [.token (.str "A")], true⟩ [] [.object 0] [0],
        .settle 1, .enter (.str "T")] ∧
      (s.promises.get 1).view.entryTokens default [.token (.str "A")] = [.str "A"] ∧
      ((s.promises.get 1).view.lookupProvider (.str "A")).map (fun q =>
        (q.useExisting, (s.promises.get 1).view.dependencyTokens default q)) = some (none, [.str "T"]) ∧
      ((s.promises.get 1).view.collectMultiProviders (.str "T"))[1]?.map NormalizedProvider.scope =
        some .request) (by decide +kernel)
  obtain ⟨a, ha, hdeps⟩ := Option.map_eq_some_iff.mp found
  obtain ⟨direct, deps⟩ := Prod.mk.inj hdeps
  obtain ⟨q, hq, request⟩ := Option.map_eq_some_iff.mp contribution
  refine ⟨s, hs, fun h => ?_⟩
  obtain ⟨π, tail, htail, -, -, unreached⟩ := h.runs 1 _ _ _ _ _ _ running top rfl
  cases htail
  refine unreached ⟨.str "A", by rw [tokens]; exact List.mem_singleton_self _, .str "T", q, ?_,
    ⟨.str "T", .here List.not_mem_nil, .inl (List.mem_of_getElem? hq)⟩, request⟩
  refine .step List.not_mem_nil (.provider ⟨.str "A", .here List.not_mem_nil, .inr ⟨ha, direct⟩⟩ ?_)
    (.here List.not_mem_nil)
  rw [deps]
  exact List.mem_singleton_self _

/-- Both ways past the scope assertion. -/
theorem scope_assertion_gaps :
    (∃ s, run default initial emptyTokenRun = some s ∧ ¬ CapturesNothing default s) ∧
    ∃ s, run default initial ownTokenRun = some s ∧ ¬ CapturesNothing default s :=
  ⟨captured_under_empty_token, captured_behind_own_token⟩

end Sys

end Fluo.Di
