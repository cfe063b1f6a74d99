import Fluo.Di.Steps

/-!
# The moves of a context, with what was checked for them
-/

namespace Fluo.Di

namespace Sys

variable (w : World) (s : Sys)

def stack (k : Nat) : List Frame := (s.contexts.get k).stack

def ctl (k : Nat) : Ctl := (s.contexts.get k).ctl

def active (k : Nat) : List Token := activeTokens (s.stack k)

def cached (c : Nat) (key : CacheKey) : Option Nat := (s.containers.get c).cache.get key

/-- What a context asks a cache for: the frames it enters first, the cache
owner, the key, the provider, and the cache or the refusal. -/
inductive Requests (k : Nat) : List Frame → Nat → CacheKey → NormalizedProvider → Except DiError Nat → Prop
  | single {c : Nat} {t : Token} {fwd : Bool} {p : NormalizedProvider} {before : List Frame}
      (ctl : s.ctl k = .eval c t fwd) (fresh : t ∉ s.active k)
      (reached : (s.containers.get c).registry.registrations.has t = true ∨
        (s.view c).collectMultiProviders t = [])
      (found : (s.view c).lookupProvider t = some p) (direct : p.useExisting = none)
      (scope : p.scope ≠ .transient)
      (entered : before = [.enter t] ∨ before = [] ∧ p.scope = .singleton ∧ ∃ home promise,
        s.cacheFor (s.cacheOwnerFor c p) p = .ok home ∧ s.cached home (.token p.provide) = some promise) :
      Requests k before (s.cacheOwnerFor c p) (.token p.provide) p (s.cacheFor (s.cacheOwnerFor c p) p)
  | contribution {c : Nat} {p : NormalizedProvider}
      (ctl : s.ctl k = .contribution c p) (direct : p.useExisting = none) (scope : p.scope ≠ .transient) :
      Requests k [] (s.cacheOwnerFor c p) (.contribution p.ref) p (s.multiCacheFor (s.cacheOwnerFor c p) p)

inductive Moves (k : Nat) : Move → Prop
  | cycle {c : Nat} {t : Token} {fwd : Bool} (ctl : s.ctl k = .eval c t fwd) (active : t ∈ s.active k) :
      Moves k (.goto (.fail [.di (.circularDependency (s.active k ++ [t]) fwd)]))
  | unregistered {c : Nat} {t : Token} {fwd : Bool} (ctl : s.ctl k = .eval c t fwd)
      (fresh : t ∉ s.active k) (missing : (s.view c).lookupProvider t = none) :
      Moves k (.goto (.fail [.di (.noProvider t)]))
  | multi {c : Nat} {t : Token} {fwd : Bool} (ctl : s.ctl k = .eval c t fwd) (fresh : t ∉ s.active k)
      (notLocal : (s.containers.get c).registry.registrations.has t = false)
      (some : (s.view c).collectMultiProviders t ≠ []) :
      Moves k (.push none [.contributions c ((s.view c).collectMultiProviders t) [] [], .enter t]
        .contributions)
  | aliasToken {c : Nat} {t target : Token} {fwd : Bool} {p : NormalizedProvider}
      (ctl : s.ctl k = .eval c t fwd) (fresh : t ∉ s.active k)
      (reached : (s.containers.get c).registry.registrations.has t = true ∨
        (s.view c).collectMultiProviders t = [])
      (found : (s.view c).lookupProvider t = some p) (existing : p.useExisting = some target) :
      Moves k (.push none [.enter t] (.eval c target false))
  | aliasContribution {c : Nat} {target : Token} {p : NormalizedProvider}
      (ctl : s.ctl k = .contribution c p) (existing : p.useExisting = some target) :
      Moves k (.goto (.eval c target false))
  | transientToken {c : Nat} {t : Token} {fwd : Bool} {p : NormalizedProvider}
      (ctl : s.ctl k = .eval c t fwd) (fresh : t ∉ s.active k)
      (reached : (s.containers.get c).registry.registrations.has t = true ∨
        (s.view c).collectMultiProviders t = [])
      (found : (s.view c).lookupProvider t = some p) (direct : p.useExisting = none)
      (scope : p.scope = .transient) :
      Moves k (.push none ((s.instantiate w c p).1 ++ [Frame.enter t]) (s.instantiate w c p).2)
  | transientContribution {c : Nat} {p : NormalizedProvider}
      (ctl : s.ctl k = .contribution c p) (direct : p.useExisting = none) (scope : p.scope = .transient) :
      Moves k (.push none (s.instantiate w c p).1 (s.instantiate w c p).2)
  | refused {before : List Frame} {owner : Nat} {key : CacheKey} {p : NormalizedProvider} {e : DiError}
      (requests : s.Requests k before owner key p (.error e)) : Moves k (.push none before (.fail [.di e]))
  | cached {before : List Frame} {owner home promise : Nat} {key : CacheKey} {p : NormalizedProvider}
      (requests : s.Requests k before owner key p (.ok home)) (hit : s.cached home key = some promise) :
      Moves k (.push (some home) before
        (s.linkPendingResolution k promise (activeTokens (before ++ s.stack k)) p.provide))
  | create {before : List Frame} {owner home : Nat} {key : CacheKey} {p : NormalizedProvider}
      (requests : s.Requests k before owner key p (.ok home)) (miss : s.cached home key = none) :
      Moves k (.create ⟨owner, home, key, p, k, s.view owner, .pending, []⟩ before
        (s.instantiate w owner p).1 (s.instantiate w owner p).2)
  | runFactory {c : Nat} {p : NormalizedProvider} {values : List Val} {uses : List Nat} {tail : List Frame}
      (ctl : s.ctl k = .deps) (top : s.stack k = .deps c p [] values uses :: tail) : Moves k (.goto .running)
  | skipDependency {c : Nat} {p : NormalizedProvider} {d : InjectionToken} {rest : List InjectionToken}
      {values : List Val} {uses : List Nat} {tail : List Frame}
      (ctl : s.ctl k = .deps) (top : s.stack k = .deps c p (d :: rest) values uses :: tail)
      (absent : s.absent w c d = true) :
      Moves k (.replace (.deps c p rest (values ++ [Val.undefined]) uses) .deps)
  | evalDependency {c : Nat} {p : NormalizedProvider} {d : InjectionToken} {rest : List InjectionToken}
      {values : List Val} {uses : List Nat} {tail : List Frame}
      (ctl : s.ctl k = .deps) (top : s.stack k = .deps c p (d :: rest) values uses :: tail)
      (present : s.absent w c d = false) :
      Moves k (.replace (.deps c p rest values uses)
        (.eval c (w.resolveProviderDependencyToken d) d.isForwardRef))
  | collected {c : Nat} {values : List Val} {uses : List Nat} {tail : List Frame}
      (ctl : s.ctl k = .contributions) (top : s.stack k = .contributions c [] values uses :: tail) :
      Moves k (.allocate values false uses)
  | nextContribution {c : Nat} {p : NormalizedProvider} {rest : List NormalizedProvider}
      {values : List Val} {uses : List Nat} {tail : List Frame}
      (ctl : s.ctl k = .contributions) (top : s.stack k = .contributions c (p :: rest) values uses :: tail) :
      Moves k (.replace (.contributions c rest values uses) (.contribution c p))
  | awaited {promise : Nat} {link : Option Nat} {v : Val} (ctl : s.ctl k = .await promise link)
      (status : (s.promises.get promise).status = .fulfilled v) : Moves k (.goto (.ret v [promise]))
  | awaitFailed {promise : Nat} {link : Option Nat} {e : Rejection} (ctl : s.ctl k = .await promise link)
      (status : (s.promises.get promise).status = .rejected e) : Moves k (.goto (.fail e))
  | returned {v : Val} {uses : List Nat} (ctl : s.ctl k = .ret v uses) (top : s.stack k = []) :
      Moves k (.goto (.done (.ok v)))
  | leave {v : Val} {uses : List Nat} {t : Token} {tail : List Frame} (ctl : s.ctl k = .ret v uses)
      (top : s.stack k = .enter t :: tail) : Moves k (.pop (.ret v uses))
  | contributed {v : Val} {uses us : List Nat} {c : Nat} {rest : List NormalizedProvider}
      {values : List Val} {tail : List Frame} (ctl : s.ctl k = .ret v uses)
      (top : s.stack k = .contributions c rest values us :: tail) :
      Moves k (.replace (.contributions c rest (values ++ [v]) (us ++ uses)) .contributions)
  | supplied {v : Val} {uses us : List Nat} {c : Nat} {p : NormalizedProvider} {rest : List InjectionToken}
      {values : List Val} {tail : List Frame} (ctl : s.ctl k = .ret v uses)
      (top : s.stack k = .deps c p rest values us :: tail) :
      Moves k (.replace (.deps c p rest (values ++ [v]) (us ++ uses)) .deps)
  | fulfil {v : Val} {uses : List Nat} {promise : Nat} {tail : List Frame} (ctl : s.ctl k = .ret v uses)
      (top : s.stack k = .settle promise :: tail) : Moves k (.fulfil promise v uses)
  | failed {e : Rejection} (ctl : s.ctl k = .fail e) (top : s.stack k = []) :
      Moves k (.goto (.done (.error e)))
  | unwind {e : Rejection} {f : Frame} {tail : List Frame} (ctl : s.ctl k = .fail e)
      (top : s.stack k = f :: tail) (frame : ∀ promise, f ≠ .settle promise) : Moves k (.pop (.fail e))
  | reject {e : Rejection} {promise : Nat} {tail : List Frame} (ctl : s.ctl k = .fail e)
      (top : s.stack k = .settle promise :: tail) : Moves k (.reject promise e)
  | made {c : Nat} {p : NormalizedProvider} {rest : List InjectionToken} {values : List Val}
      {uses : List Nat} {tail : List Frame} (disposable : Bool) (ctl : s.ctl k = .running)
      (top : s.stack k = .deps c p rest values uses :: tail) : Moves k (.allocate values disposable uses)
  | shared {c : Nat} {p : NormalizedProvider} {rest : List InjectionToken} {values : List Val}
      {uses : List Nat} {tail : List Frame} (v : Val) (ctl : s.ctl k = .running)
      (top : s.stack k = .deps c p rest values uses :: tail) : Moves k (.pop (.ret v uses))
  | thrown {c : Nat} {p : NormalizedProvider} {rest : List InjectionToken} {values : List Val}
      {uses : List Nat} {tail : List Frame} (n : Nat) (ctl : s.ctl k = .running)
      (top : s.stack k = .deps c p rest values uses :: tail) : Moves k (.pop (.fail [.thrown n]))

variable {w s} {k : Nat}

theorem Moves.of_obtain {before : List Frame} {owner : Nat} {key : CacheKey} {p : NormalizedProvider}
    {home : Except DiError Nat} (h : s.Requests k before owner key p home) :
    Moves w s k (s.obtain w k before owner key p home) := by
  cases home with
  | error e => exact .refused h
  | ok home =>
    simp only [obtain]
    cases hit : (s.containers.get home).cache.get key with
    | some promise => exact .cached h hit
    | none => exact .create h hit

theorem Moves.of_eval {c : Nat} {t : Token} {fwd : Bool} (hctl : s.ctl k = .eval c t fwd) :
    Moves w s k (s.resolveWithChain w k c t fwd) := by
  unfold resolveWithChain
  dsimp only
  split
  · rename_i hactive
    exact .cycle hctl hactive
  rename_i fresh
  unfold resolveFromRegisteredProviders
  dsimp only
  split
  · rename_i hmulti
    exact .multi hctl fresh (by simpa using hmulti.1) hmulti.2
  rename_i reached
  have reached : (s.containers.get c).registry.registrations.has t = true ∨
      (s.view c).collectMultiProviders t = [] := by
    by_contra h
    rw [not_or, Bool.not_eq_true] at h
    exact reached ⟨by simp [h.1], h.2⟩
  cases found : (s.view c).lookupProvider t with
  | none => exact .unregistered hctl fresh found
  | some p =>
    simp only [resolveProvider]
    cases direct : p.useExisting with
    | some target => exact .aliasToken hctl fresh reached found direct
    | none =>
      dsimp only
      split
      · rename_i scope
        exact .transientToken hctl fresh reached found direct scope
      · rename_i scope
        refine .of_obtain (.single hctl fresh reached found direct scope ?_)
        split
        · rename_i hc
          refine .inr ⟨rfl, hc.1, ?_⟩
          cases hhome : s.cacheFor (s.cacheOwnerFor c p) p with
          | error e => simp [hhome, Except.toOption] at hc
          | ok home =>
            simp only [hhome, Except.toOption, Option.bind_some, Option.isSome_iff_exists] at hc
            obtain ⟨promise, hit⟩ := hc.2
            exact ⟨home, promise, rfl, hit⟩
        · exact .inl rfl

theorem Moves.of_contribution {c : Nat} {p : NormalizedProvider} (hctl : s.ctl k = .contribution c p) :
    Moves w s k (s.resolveMultiProviderInstance w k c p) := by
  unfold resolveMultiProviderInstance
  cases direct : p.useExisting with
  | some target => exact .aliasContribution hctl direct
  | none =>
    dsimp only
    split
    · rename_i scope
      exact .transientContribution hctl direct scope
    · rename_i scope
      exact .of_obtain (.contribution hctl direct scope)

theorem Moves.of_move {m : Move} (h : s.move w k = some m) : Moves w s k m := by
  unfold move at h
  dsimp only at h
  split at h
  · rename_i hctl; cases h; exact .of_eval hctl
  · rename_i hctl; cases h; exact .of_contribution hctl
  · rename_i hctl
    split at h
    · rename_i c rest values uses tail top
      cases h
      cases rest with
      | nil => exact .collected hctl top
      | cons p rest => exact .nextContribution hctl top
    · cases h
  · rename_i hctl
    split at h
    · rename_i c p rest values uses tail top
      cases h
      cases rest with
      | nil => exact .runFactory hctl top
      | cons d rest =>
        simp only [nextDependency]
        split
        · rename_i absent; exact .skipDependency hctl top absent
        · rename_i present; exact .evalDependency hctl top (by simpa using present)
    · cases h
  · rename_i hctl
    split at h
    · cases h
    · rename_i status; cases h; exact .awaited hctl status
    · rename_i status; cases h; exact .awaitFailed hctl status
  · rename_i v uses hctl
    cases h
    have top : s.stack k = (s.contexts.get k).stack := rfl
    revert top
    cases (s.contexts.get k).stack with
    | nil => intro top; exact .returned hctl top
    | cons f tail =>
      intro top
      cases f with
      | enter t => exact .leave hctl top
      | contributions c rest values us => exact .contributed hctl top
      | deps c p rest values us => exact .supplied hctl top
      | settle promise => exact .fulfil hctl top
  · rename_i e hctl
    cases h
    have top : s.stack k = (s.contexts.get k).stack := rfl
    revert top
    cases (s.contexts.get k).stack with
    | nil => intro top; exact .failed hctl top
    | cons f tail =>
      intro top
      cases f with
      | enter t => exact .unwind hctl top nofun
      | contributions c rest values us => exact .unwind hctl top nofun
      | deps c p rest values us => exact .unwind hctl top nofun
      | settle promise => exact .reject hctl top
  · cases h
  · cases h
  · cases h

theorem Moves.of_factory {m : Move} {outcome : FactoryOutcome}
    (h : factoryMove outcome (s.contexts.get k) = some m) : Moves w s k m := by
  unfold factoryMove at h
  split at h
  · rename_i hctl top
    cases outcome <;> cases h
    · exact .made _ hctl top
    · exact .shared _ hctl top
    · exact .thrown _ hctl top
  · cases h

/-! ## Steps -/

/-- A context that waited for stale tasks goes on: with the next round, with
the resolution itself, or with the errors. -/
inductive Woken (w : World) (s : Sys) (k : Nat) : Sys → List Frame → Ctl → Prop
  | round {start : Start} {wait : StaleWait} {r : Sys × StaleWait} (ctl : s.ctl k = .stale start wait)
      (next : s.nextStaleRound start.container wait = some r) : Woken w s k r.1 [] (.stale start r.2)
  | begin {start : Start} {wait : StaleWait} (ctl : s.ctl k = .stale start wait) (round : wait.round = [])
      (errors : wait.errors = []) : Woken w s k s (beginResolution w start s).1 (beginResolution w start s).2
  | errors {start : Start} {wait : StaleWait} (ctl : s.ctl k = .stale start wait) (round : wait.round = [])
      (errors : wait.errors ≠ []) : Woken w s k s [] (.fail wait.errors)

theorem Woken.still {t : Sys} {stack : List Frame} {ctl : Ctl} (h : Woken w s k t stack ctl) : Still s t := by
  cases h with
  | round _ next => exact .nextStaleRound next
  | begin => exact .refl s
  | errors => exact .refl s

inductive Configures (w : World) (s : Sys) : Event → Sys → Prop
  | register {c : Nat} (ds : List Provider) (hc : c < s.containers.size) :
      Configures w s (.register c ds) (Sys.register w c ds s)
  | override {c : Nat} (ds : List Provider) (hc : c < s.containers.size) :
      Configures w s (.override c ds) (Sys.override w c ds s)
  | createRequestScope {c : Nat} (hc : c < s.containers.size) :
      Configures w s (.createRequestScope c) (Sys.createRequestScope c s)

theorem Configures.quiet {e : Event} {s' : Sys} (h : Configures w s e s') : Quiet s s' := by
  cases h with
  | register ds =>
    unfold Sys.register
    split
    · exact .refl s
    · exact registerAll_quiet _ ds s
  | override ds => exact override_quiet _ ds s
  | createRequestScope => exact createRequestScope_quiet _ s

inductive StepKind (w : World) (s : Sys) (e : Event) : Sys → Prop
  | still {s' : Sys} (h : Still s s') : StepKind w s e s'
  | attempt {α : Nat} {s' : Sys} (he : e = .attempt α) (h : s.advanceAttempt w α = some s') : StepKind w s e s'
  | configure {s' : Sys} (h : Configures w s e s') : StepKind w s e s'
  | start (start : Start) (hc : start.container < s.containers.size) : StepKind w s e (startContext start s)
  | wake {k : Nat} {t : Sys} {stack : List Frame} {ctl : Ctl} (hk : k < s.contexts.size)
      (h : Woken w s k t stack ctl) : StepKind w s e (t.setContext k stack ctl)
  | move {k : Nat} {m : Move} (he : e = .context k ∨ s.ctl k = .running) (hk : k < s.contexts.size)
      (h : Moves w s k m) : StepKind w s e (s.apply k m)

theorem step_kind {s' : Sys} {e : Event} (h : step w s e = some s') : StepKind w s e s' := by
  cases e with
  | register c ds =>
    simp only [step, Option.ite_none_right_eq_some, Option.some.injEq] at h
    obtain ⟨hc, rfl⟩ := h
    exact .configure (.register ds hc)
  | override c ds =>
    simp only [step, Option.ite_none_right_eq_some, Option.some.injEq] at h
    obtain ⟨hc, rfl⟩ := h
    exact .configure (.override ds hc)
  | createRequestScope c =>
    simp only [step, Option.ite_none_right_eq_some, Option.some.injEq] at h
    obtain ⟨hc, rfl⟩ := h
    exact .configure (.createRequestScope hc)
  | resolve c t =>
    simp only [step, Option.ite_none_right_eq_some, Option.some.injEq] at h
    obtain ⟨hc, rfl⟩ := h
    exact .start _ hc
  | resolveMultiContribution c t index =>
    simp only [step, Option.ite_none_right_eq_some, Option.some.injEq] at h
    obtain ⟨hc, rfl⟩ := h
    exact .start _ hc
  | dispose c =>
    simp only [step, Option.ite_none_right_eq_some, Option.some.injEq] at h
    obtain ⟨-, rfl⟩ := h
    exact .still (.startDispose _ .direct c s)
  | context k =>
    simp only [step, Option.ite_none_right_eq_some] at h
    obtain ⟨hk, h⟩ := h
    unfold advanceContext at h
    split at h
    · rename_i start wait hctl
      dsimp only at h
      split at h
      · rename_i round
        cases h
        by_cases errors : wait.errors = []
        · simp only [errors, ↓reduceIte]
          exact .wake hk (.begin hctl round errors)
        · simp only [errors, ↓reduceIte]
          exact .wake hk (.errors hctl round errors)
      · obtain ⟨r, hr, rfl⟩ := Option.map_eq_some_iff.mp h
        exact .wake hk (.round hctl hr)
    · obtain ⟨m, hm, rfl⟩ := Option.map_eq_some_iff.mp h
      exact .move (.inl rfl) hk (.of_move hm)
  | factory k outcome =>
    simp only [step, Option.ite_none_right_eq_some] at h
    obtain ⟨hk, h⟩ := h
    obtain ⟨m, hm, rfl⟩ := Option.map_eq_some_iff.mp h
    refine .move (.inr ?_) hk (.of_factory hm)
    unfold factoryMove at hm
    split at hm
    · rename_i ctl _; exact ctl
    · cases hm
  | task τ =>
    simp only [step, Option.ite_none_right_eq_some] at h
    exact .still (.advanceTask h.2)
  | taskHook τ thrown =>
    simp only [step, Option.ite_none_right_eq_some] at h
    exact .still (.taskHook h.2)
  | attempt α =>
    simp only [step, Option.ite_none_right_eq_some] at h
    exact .attempt rfl h.2
  | attemptHook α thrown =>
    simp only [step, Option.ite_none_right_eq_some] at h
    exact .still (.attemptHook h.2)
  | call κ =>
    simp only [step, Option.ite_none_right_eq_some] at h
    exact .still (.advanceCall h.2)

/-! ## Runs -/

theorem run_append {es es' : List Event} {s : Sys} :
    run w s (es ++ es') = (run w s es).bind fun s => run w s es' := by
  induction es generalizing s with
  | nil => rfl
  | cons e rest ih =>
    simp only [List.cons_append, run, Option.bind_assoc]
    exact congrArg _ (funext fun s => ih)

/-- What holds at the start and is kept by every step holds after every run. -/
theorem run_induction {I : Sys → Prop} (step : ∀ s e s', I s → Sys.step w s e = some s' → I s')
    {es : List Event} {s s' : Sys} (hs : I s) (h : run w s es = some s') : I s' := by
  induction es generalizing s with
  | nil => cases h; exact hs
  | cons e rest ih =>
    obtain ⟨s₁, h₁, h⟩ := Option.bind_eq_some_iff.mp h
    exact ih (step s e s₁ hs h₁) h

/-- A condition on the state and the event holds at every step of a run. -/
def Throughout (w : World) (C : Sys → Event → Prop) : Sys → List Event → Prop
  | _, [] => True
  | s, e :: rest => C s e ∧ ∀ s', Sys.step w s e = some s' → Throughout w C s' rest

instance Throughout.decidable {C : Sys → Event → Prop} [∀ s e, Decidable (C s e)] :
    (s : Sys) → (es : List Event) → Decidable (Throughout w C s es)
  | _, [] => isTrue trivial
  | s, e :: rest =>
    match h : Sys.step w s e with
    | none => decidable_of_iff (C s e) ⟨fun hc => ⟨hc, fun s' hs => by rw [h] at hs; cases hs⟩, And.left⟩
    | some s' =>
      have := Throughout.decidable (C := C) s' rest
      decidable_of_iff (C s e ∧ Throughout w C s' rest)
        ⟨fun hc => ⟨hc.1, fun t ht => by rw [h] at ht; cases ht; exact hc.2⟩,
          fun hc => ⟨hc.1, hc.2 s' h⟩⟩

theorem Throughout.and {C D : Sys → Event → Prop} {es : List Event} {s : Sys} (h : Throughout w C s es)
    (h' : Throughout w D s es) : Throughout w (fun s e => C s e ∧ D s e) s es := by
  induction es generalizing s with
  | nil => trivial
  | cons e rest ih => exact ⟨⟨h.1, h'.1⟩, fun s' hs => ih (h.2 s' hs) (h'.2 s' hs)⟩

theorem run_eval (es : List Event) (P : Sys → Prop) [DecidablePred P] {s : Sys}
    (h : (run w s es).any (fun s => decide (P s)) = true) : ∃ s', run w s es = some s' ∧ P s' := by
  obtain ⟨s', hs, hp⟩ := (Option.any_eq_true _ _).mp h
  exact ⟨s', hs, of_decide_eq_true hp⟩

theorem Reachable.step {s s' : Sys} {e : Event} (h : Reachable w s) (hs : Sys.step w s e = some s') :
    Reachable w s' := by
  obtain ⟨es, h⟩ := h
  refine ⟨es ++ [e], ?_⟩
  rw [run_append, h]
  simp [run, hs]

theorem Reachable.induction {I : Sys → Prop} (init : I initial)
    (step : ∀ s e s', Reachable w s → I s → Sys.step w s e = some s' → I s') {s : Sys} (h : Reachable w s) :
    I s := by
  obtain ⟨es, h⟩ := h
  have start : Reachable w initial := ⟨[], rfl⟩
  exact (run_induction (I := fun s => Reachable w s ∧ I s)
    (fun s e s' hi hs => ⟨hi.1.step hs, step s e s' hi.1 hi.2 hs⟩) ⟨start, init⟩ h).2

theorem Reachable.throughout {I : Sys → Prop} {C : Sys → Event → Prop} {s s' : Sys} {es : List Event}
    (h : Reachable w s) (step : ∀ s e s', Reachable w s → C s e → I s → Sys.step w s e = some s' → I s')
    (hs : I s) (hc : Throughout w C s es) (hr : Sys.run w s es = some s') : I s' := by
  induction es generalizing s with
  | nil => cases hr; exact hs
  | cons e rest ih =>
    obtain ⟨s₁, h₁, hr⟩ := Option.bind_eq_some_iff.mp hr
    exact ih (h.step h₁) (step s e s₁ h hc.1 hs h₁) (hc.2 s₁ h₁) hr

theorem Reachable.run {s s' : Sys} {es : List Event} (h : Reachable w s) (hs : Sys.run w s es = some s') :
    Reachable w s' :=
  run_induction (fun _ _ _ h hs => h.step hs) h hs

end Sys

end Fluo.Di
