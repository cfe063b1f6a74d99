import Fluo.Di.ScopeSafety
import Fluo.Di.Soundness

/-!
# What a request for a provider is answered with

A context asks for a provider's instance, and its first return to the stack it
asked on is the answer. Until then it makes the instance under a promise, waits
for a promise, or hands on what a promise settled with.
-/

namespace Fluo.Di

namespace Sys

variable {w : World} {s s' t : Sys} {k π : Nat} {p : NormalizedProvider} {m : Move} {stack : List Frame}
  {these : Nat → Prop}

/-- The next move of the context takes `p`'s instance from a cache, or makes it. -/
inductive Asks (s : Sys) (k : Nat) (p : NormalizedProvider) : Prop
  | token {c : Nat} {t : Token} {fwd : Bool} (ctl : s.ctl k = .eval c t fwd)
      (reached : (s.containers.get c).registry.registrations.has t = true ∨
        (s.view c).collectMultiProviders t = [])
      (found : (s.view c).lookupProvider t = some p) (direct : p.useExisting = none)
  | contribution {c : Nat} (ctl : s.ctl k = .contribution c p) (direct : p.useExisting = none)

/-- What the context returns to `stack`, if it does so now. -/
def reply (s : Sys) (k : Nat) (stack : List Frame) : Option (Except Rejection Val) :=
  if s.stack k = stack then
    match s.ctl k with
    | .ret v _ => some (.ok v)
    | .fail e => some (.error e)
    | _ => none
  else none

def answer (w : World) (k : Nat) (stack : List Frame) : Sys → List Event → Option (Except Rejection Val)
  | _, [] => none
  | s, e :: rest => (step w s e).bind fun s' => (s'.reply k stack).or (answer w k stack s' rest)

/-- The user's factory or constructor for `p` returns `v`. -/
inductive Completes (s : Sys) (p : NormalizedProvider) : Event → Val → Prop
  | made {k c : Nat} {rest : List InjectionToken} {values : List Val} {uses : List Nat} {tail : List Frame}
      {disposable : Bool} (ctl : s.ctl k = .running) (top : s.stack k = .deps c p rest values uses :: tail) :
      Completes s p (.factory k (.fresh disposable)) (.object s.objects.size)
  | shared {k c : Nat} {rest : List InjectionToken} {values : List Val} {uses : List Nat} {tail : List Frame}
      {v : Val} (ctl : s.ctl k = .running) (top : s.stack k = .deps c p rest values uses :: tail) :
      Completes s p (.factory k (.shared v)) v

/-! ## Steps, seen from one context -/

theorem StepKind.contexts {e : Event} (h : StepKind w s e s') : s.contexts.size ≤ s'.contexts.size := by
  cases h with
  | still q => rw [q.contexts]
  | attempt _ q => rw [(advanceAttempt_fixed q).contexts]
  | configure q => rw [q.quiet.contexts]
  | start => exact Nat.le_succ _
  | wake _ woken => exact Nat.le_of_eq (by rw [setContext, Heap.set_size, woken.still.contexts])
  | move => rw [apply_contexts_size]

/-- A step leaves a context that is under way alone, or it is a move of it. -/
theorem StepKind.context {e : Event} (h : StepKind w s e s') (born : k < s.contexts.size)
    (awake : ∀ start wait, s.ctl k ≠ .stale start wait) :
    s'.stack k = s.stack k ∧ s'.ctl k = s.ctl k ∨ ∃ m, Moves w s k m ∧ s' = s.apply k m := by
  have same (contexts : s'.contexts = s.contexts) : s'.stack k = s.stack k ∧ s'.ctl k = s.ctl k := by
    rw [Sys.stack, Sys.ctl, contexts]
    exact ⟨rfl, rfl⟩
  cases h with
  | still q => exact .inl (same q.contexts)
  | attempt _ q => exact .inl (same (advanceAttempt_fixed q).contexts)
  | configure q => exact .inl (same q.quiet.contexts)
  | start start =>
    left
    simp only [Sys.stack, Sys.ctl, startContext, Heap.get_push, Nat.ne_of_lt born, ↓reduceIte, and_self]
  | @wake j t stack ctl _ woken =>
    have other : k ≠ j := by
      rintro rfl
      cases woken with
      | round ctl | begin ctl | errors ctl => exact awake _ _ ctl
    left
    simp only [Sys.stack, Sys.ctl, setContext, Heap.get_set, other, ↓reduceIte, woken.still.contexts, and_self]
  | @move j m _ _ hm =>
    by_cases e : k = j
    · subst e; exact .inr ⟨m, hm, rfl⟩
    · left; rw [apply_stack, apply_ctl, if_neg e, if_neg e]; exact ⟨rfl, rfl⟩

theorem Moves.placed (h : Moves w s k m) (hπ : π < s.promises.size) :
    ((s.apply k m).promises.get π).home = (s.promises.get π).home ∧
      ((s.apply k m).promises.get π).key = (s.promises.get π).key := by
  rcases h.promise hπ with e | ⟨-, _, _, -, e⟩ <;> rw [e] <;> exact ⟨rfl, rfl⟩

theorem StepKind.placed {e : Event} (h : StepKind w s e s') (hπ : π < s.promises.size) :
    (s'.promises.get π).home = (s.promises.get π).home ∧ (s'.promises.get π).key = (s.promises.get π).key := by
  have same (promises : s'.promises = s.promises) :
      (s'.promises.get π).home = (s.promises.get π).home ∧ (s'.promises.get π).key = (s.promises.get π).key := by
    rw [promises]; exact ⟨rfl, rfl⟩
  cases h with
  | still q => exact same q.promises
  | attempt _ q => exact same (advanceAttempt_fixed q).promises
  | configure q => exact same q.quiet.promises
  | start => exact same rfl
  | wake _ woken => exact same woken.still.promises
  | move _ _ hm => exact hm.placed hπ

/-- A move works above a promise's frame, until it settles the promise. -/
theorem Moves.above (h : Moves w s k m) {above below : List Frame}
    (top : s.stack k = above ++ .settle π :: below) :
    (∃ above', Move.stack s k m = above' ++ .settle π :: below) ∨
      Move.stack s k m = below ∧ ((∃ v uses, m = .fulfil π v uses) ∨ ∃ e, m = .reject π e) := by
  have same : ∃ above', s.stack k = above' ++ .settle π :: below := ⟨above, top⟩
  have more (frames : List Frame) : ∃ above', frames ++ s.stack k = above' ++ .settle π :: below :=
    ⟨frames ++ above, by rw [top, List.append_assoc]⟩
  have under {f : Frame} {tail : List Frame} (top' : s.stack k = f :: tail) (other : f ≠ .settle π) :
      ∃ above', tail = above' ++ .settle π :: below := by
    rw [top'] at top
    cases above with
    | nil => cases top; exact absurd rfl other
    | cons g above => cases top; exact ⟨above, rfl⟩
  have popped {f : Frame} {tail : List Frame} (top' : s.stack k = f :: tail) (other : f ≠ .settle π) :
      ∃ above', (s.stack k).tail = above' ++ .settle π :: below := by
    rw [top']; exact under top' other
  have replaced {f g : Frame} {tail : List Frame} (top' : s.stack k = f :: tail) (other : f ≠ .settle π) :
      ∃ above', g :: (s.stack k).tail = above' ++ .settle π :: below := by
    obtain ⟨rest, hrest⟩ := popped top' other
    exact ⟨g :: rest, by rw [hrest]; rfl⟩
  -- The promise on top is this one, or lies above it.
  have settled {π' : Nat} {tail : List Frame} (top' : s.stack k = .settle π' :: tail) :
      (∃ above', (s.stack k).tail = above' ++ .settle π :: below) ∨ (s.stack k).tail = below ∧ π' = π := by
    by_cases e : π' = π
    · subst e
      rw [top'] at top ⊢
      cases above with
      | nil => cases top; exact .inr ⟨rfl, rfl⟩
      | cons g above => cases top; exact .inl ⟨above, rfl⟩
    · exact .inl (popped top' fun e' => e (Frame.settle.inj e'))
  cases h with
  | cycle | unregistered | aliasContribution | runFactory | awaited | awaitFailed | returned | failed => exact .inl same
  | multi => exact .inl (more [_, _])
  | aliasToken => exact .inl (more [_])
  | transientToken | transientContribution | refused | cached => exact .inl (more _)
  | create requests =>
    left
    simp only [Move.stack, List.append_assoc, List.cons_append]
    obtain ⟨rest, hrest⟩ := more (_ ++ [.settle s.promises.size] ++ _)
    exact ⟨rest, by simpa only [List.append_assoc, List.cons_append, List.nil_append] using hrest⟩
  | skipDependency _ top' | evalDependency _ top' | nextContribution _ top' | contributed _ top' | supplied _ top' =>
    exact .inl (replaced top' (by simp))
  | collected _ top' | leave _ top' | made _ _ top' | shared _ _ top' | thrown _ _ top' =>
    exact .inl (popped top' (by simp))
  | unwind _ top' frame => exact .inl (popped top' (frame π))
  | fulfil _ top' =>
    rcases settled top' with same | ⟨tail, rfl⟩
    · exact .inl same
    · exact .inr ⟨tail, .inl ⟨_, _, rfl⟩⟩
  | reject _ top' =>
    rcases settled top' with same | ⟨tail, rfl⟩
    · exact .inl same
    · exact .inr ⟨tail, .inr ⟨_, rfl⟩⟩

theorem linkPendingResolution_waits (s : Sys) (k promise : Nat) (active : List Token) (t : Token) :
    (∃ link, s.linkPendingResolution k promise active t = .await promise link) ∨
      ∃ e, s.linkPendingResolution k promise active t = .fail e := by
  unfold linkPendingResolution
  dsimp only
  split
  · exact .inl ⟨_, rfl⟩
  · split
    · exact .inr ⟨_, rfl⟩
    · exact .inl ⟨_, rfl⟩

theorem instantiate_not_done (s : Sys) (c : Nat) (q : NormalizedProvider) (r : Except Rejection Val) :
    (s.instantiate w c q).2 ≠ .done r := by
  unfold instantiate
  split
  · simp
  · split <;> simp

/-- A context is done only when nothing is left on its stack. -/
theorem Moves.done (h : Moves w s k m) {r : Except Rejection Val} (done : Move.ctl s m = .done r) :
    s.stack k = [] := by
  cases h with
  | returned _ top | failed _ top => exact top
  | transientToken | transientContribution | create => exact absurd done (instantiate_not_done _ _ _ r)
  | cached =>
    rcases linkPendingResolution_waits _ _ _ _ _ with ⟨link, e⟩ | ⟨err, e⟩ <;> cases e.symm.trans done
  | _ => cases done

theorem Requests.evaluates {before : List Frame} {owner : Nat} {key : CacheKey} {home : Except DiError Nat}
    (h : s.Requests k before owner key p home) :
    (∃ c t fwd, s.ctl k = .eval c t fwd) ∨ ∃ c, s.ctl k = .contribution c p := by
  cases h with
  | single ctl => exact .inl ⟨_, _, _, ctl⟩
  | contribution ctl => exact .inr ⟨_, ctl⟩

theorem Requests.enters {before : List Frame} {owner : Nat} {key : CacheKey} {home : Except DiError Nat}
    (h : s.Requests k before owner key p home) : ∀ f ∈ before, ∃ t, f = .enter t := by
  cases h with
  | single _ _ _ _ _ _ entered =>
    rcases entered with rfl | ⟨rfl, -⟩
    · exact fun f hf => ⟨_, List.mem_singleton.mp hf⟩
    · exact fun f hf => absurd hf List.not_mem_nil
  | contribution => exact fun f hf => absurd hf List.not_mem_nil

theorem Moves.under_way (h : Moves w s k m) (r : Except Rejection Val) : s.ctl k ≠ .done r := by
  intro done
  cases h with
  | refused requests | cached requests | create requests =>
    rcases requests.evaluates with ⟨_, _, _, e⟩ | ⟨_, e⟩ <;> cases done.symm.trans e
  | _ => simp_all

theorem Moves.of_awaiting (h : Moves w s k m) {link : Option Nat} (ctl : s.ctl k = .await π link) :
    (∃ v, (s.promises.get π).status = .fulfilled v ∧ m = .goto (.ret v [π])) ∨ ∃ e, m = .goto (.fail e) := by
  cases h with
  | awaited ctl' status =>
    cases ctl.symm.trans ctl'
    exact .inl ⟨_, status, rfl⟩
  | awaitFailed => exact .inr ⟨_, rfl⟩
  | refused requests | cached requests | create requests =>
    rcases requests.evaluates with ⟨_, _, _, e⟩ | ⟨_, e⟩ <;> cases ctl.symm.trans e
  | _ => simp_all

theorem Moves.of_returning (h : Moves w s k m) {v : Val} {uses : List Nat} (ctl : s.ctl k = .ret v uses) :
    (∀ t tail, s.stack k = .enter t :: tail → m = .pop (.ret v uses)) ∧ (s.stack k = [] → m = .goto (.done (.ok v))) := by
  cases h with
  | refused requests | cached requests | create requests =>
    rcases requests.evaluates with ⟨_, _, _, e⟩ | ⟨_, e⟩ <;> cases ctl.symm.trans e
  | _ => simp_all

theorem Moves.of_settling (h : Moves w s k m) {v : Val} {uses : List Nat} {tail : List Frame}
    (ctl : s.ctl k = .ret v uses) (top : s.stack k = .settle π :: tail) : m = .fulfil π v uses := by
  cases h with
  | refused requests | cached requests | create requests =>
    rcases requests.evaluates with ⟨_, _, _, e⟩ | ⟨_, e⟩ <;> cases ctl.symm.trans e
  | _ => simp_all

theorem Moves.of_unwinding (h : Moves w s k m) {e : Rejection} (ctl : s.ctl k = .fail e) :
    (∀ t tail, s.stack k = .enter t :: tail → m = .pop (.fail e)) ∧ (s.stack k = [] → m = .goto (.done (.error e))) := by
  cases h with
  | refused requests | cached requests | create requests => exact absurd ctl (requests.not_failing e)
  | _ => simp_all

/-! ## From the question to the answer -/

/-- The context is to hand on to `stack` what one of these promises settles
with, or fails; between them lie entered tokens only. With nothing under it,
what it hands on is the result. -/
inductive Pursues (s : Sys) (k : Nat) (stack : List Frame) (these : Nat → Prop) : Prop
  | making {π : Nat} {above entered : List Frame} (this : these π)
      (frames : s.stack k = above ++ .settle π :: (entered ++ stack)) (only : ∀ f ∈ entered, ∃ t, f = .enter t)
      (going : ∀ r, s.ctl k ≠ .done r)
  | waiting {π : Nat} {entered : List Frame} {link : Option Nat} (this : these π)
      (frames : s.stack k = entered ++ stack) (only : ∀ f ∈ entered, ∃ t, f = .enter t)
      (ctl : s.ctl k = .await π link)
  | back {π : Nat} {entered : List Frame} {v : Val} {uses : List Nat} (this : these π)
      (frames : s.stack k = entered ++ stack) (only : ∀ f ∈ entered, ∃ t, f = .enter t) (ctl : s.ctl k = .ret v uses)
      (status : (s.promises.get π).status = .fulfilled v)
  | failing {entered : List Frame} {e : Rejection} (frames : s.stack k = entered ++ stack)
      (only : ∀ f ∈ entered, ∃ t, f = .enter t) (ctl : s.ctl k = .fail e)
  | done {r : Except Rejection Val} (bottom : stack = []) (ctl : s.ctl k = .done r)
      (value : ∀ v, r = .ok v → ∃ π, these π ∧ (s.promises.get π).status = .fulfilled v)

theorem Pursues.reply (h : Pursues s k stack these) {v : Val} (replied : s.reply k stack = some (.ok v)) :
    ∃ π, these π ∧ (s.promises.get π).status = .fulfilled v := by
  unfold Sys.reply at replied
  split at replied
  · rename_i here
    cases h with
    | making _ frames =>
      have := congrArg List.length (here.symm.trans frames)
      simp only [List.length_append, List.length_cons] at this
      omega
    | waiting _ _ _ ctl | failing _ _ ctl | done _ ctl => simp [ctl] at replied
    | back this _ _ ctl status =>
      simp only [ctl, Option.some.injEq, Except.ok.injEq] at replied
      exact ⟨_, this, by rw [← replied]; exact status⟩
  · cases replied

theorem Pursues.result (h : Pursues s k stack these) {v : Val} (done : s.ctl k = .done (.ok v)) :
    ∃ π, these π ∧ (s.promises.get π).status = .fulfilled v := by
  cases h with
  | making _ _ _ going => exact absurd done (going _)
  | waiting _ _ _ ctl | back _ _ _ ctl | failing _ _ ctl => rw [ctl] at done; cases done
  | done _ ctl value => rw [ctl] at done; cases done; exact value v rfl

theorem Asks.same (a : Asks s k p) {before : List Frame} {owner : Nat} {key : CacheKey} {q : NormalizedProvider}
    {home : Except DiError Nat} (requests : s.Requests k before owner key q home) : q = p := by
  cases requests with
  | single ctl _ _ found =>
    cases a with
    | token ctl' _ found' =>
      cases ctl.symm.trans ctl'
      exact Option.some.inj (found.symm.trans found')
    | contribution ctl' => cases ctl.symm.trans ctl'
  | contribution ctl =>
    cases a with
    | token ctl' => cases ctl.symm.trans ctl'
    | contribution ctl' => cases ctl.symm.trans ctl'; rfl

/-- A context that asks for a singleton fails, finds a promise in the cache or puts one there. -/
theorem Asks.moves (a : Asks s k p) (singleton : p.scope = .singleton) (h : Moves w s k m) :
    (∃ e, m = .goto (.fail e)) ∨ ∃ before owner key home, s.Requests k before owner key p home ∧
      ((∃ e, m = .push none before (.fail e)) ∨
        (∃ d π active t, home = .ok d ∧ s.cached d key = some π ∧
          m = .push (some d) before (s.linkPendingResolution k π active t)) ∨
        ∃ d x, home = .ok d ∧ s.cached d key = none ∧ x.provider = p ∧
          m = .create x before (s.instantiate w owner p).1 (s.instantiate w owner p).2) := by
  have evaluates : (∃ c t fwd, s.ctl k = .eval c t fwd) ∨ ∃ c, s.ctl k = .contribution c p := by
    cases a with
    | token ctl => exact .inl ⟨_, _, _, ctl⟩
    | contribution ctl => exact .inr ⟨_, ctl⟩
  cases h with
  | cycle => exact .inl ⟨_, rfl⟩
  | unregistered ctl => exact .inl ⟨_, rfl⟩
  | refused requests =>
    cases a.same requests
    exact .inr ⟨_, _, _, _, requests, .inl ⟨_, rfl⟩⟩
  | cached requests hit =>
    cases a.same requests
    exact .inr ⟨_, _, _, _, requests, .inr (.inl ⟨_, _, _, _, rfl, hit, rfl⟩)⟩
  | create requests miss =>
    cases a.same requests
    exact .inr ⟨_, _, _, _, requests, .inr (.inr ⟨_, _, rfl, miss, rfl, rfl⟩)⟩
  | multi ctl _ notLocal contributed =>
    cases a with
    | token ctl' reached =>
      cases ctl.symm.trans ctl'
      rcases reached with here | none
      · rw [notLocal] at here; cases here
      · exact absurd none contributed
    | contribution ctl' => cases ctl.symm.trans ctl'
  | aliasToken ctl _ _ found existing | transientToken ctl _ _ found existing =>
    cases a with
    | token ctl' _ found' direct =>
      cases ctl.symm.trans ctl'
      cases found.symm.trans found'
      simp_all
    | contribution ctl' => cases ctl.symm.trans ctl'
  | aliasContribution ctl existing | transientContribution ctl existing =>
    cases a with
    | token ctl' => cases ctl.symm.trans ctl'
    | contribution ctl' direct => cases ctl.symm.trans ctl'; simp_all
  | runFactory ctl | skipDependency ctl | evalDependency ctl | collected ctl | nextContribution ctl | awaited ctl
  | awaitFailed ctl | returned ctl | leave ctl | contributed ctl | supplied ctl | fulfil ctl | failed ctl | unwind ctl
  | reject ctl | made _ ctl | shared _ ctl | thrown _ ctl =>
    rcases evaluates with ⟨_, _, _, e⟩ | ⟨_, e⟩ <;> cases ctl.symm.trans e

/-- Whoever asks for a singleton pursues the promise in its slot, or the one it makes. -/
theorem Asks.pursues (a : Asks s k p) (singleton : p.scope = .singleton) (h : Moves w s k m) {entered : List Frame}
    (frames : s.stack k = entered ++ stack) (only : ∀ f ∈ entered, ∃ t, f = .enter t) :
    Pursues (s.apply k m) k stack (fun _ => False) ∨
      ∃ before owner key home, s.Requests k before owner key p (.ok home) ∧
        ((∃ π, s.cached home key = some π ∧ Pursues (s.apply k m) k stack (· = π)) ∨
          (∃ x frames ctl, m = .create x before frames ctl ∧ x.provider = p) ∧
            Pursues (s.apply k m) k stack (· = s.promises.size)) := by
  have hs : (s.apply k m).stack k = Move.stack s k m := by rw [apply_stack, if_pos rfl]
  have hc : (s.apply k m).ctl k = Move.ctl s m := by rw [apply_ctl, if_pos rfl]
  have both {before : List Frame} (enters : ∀ f ∈ before, ∃ t, f = .enter t) :
      ∀ f ∈ before ++ entered, ∃ t, f = .enter t :=
    fun f hf => (List.mem_append.mp hf).elim (enters f) (only f)
  rcases a.moves singleton h with ⟨e, rfl⟩ | ⟨before, owner, key, home, requests, case⟩
  · exact .inl (.failing (hs.trans frames) only hc)
  · have on : before ++ s.stack k = before ++ entered ++ stack := by rw [frames, List.append_assoc]
    have enters := both requests.enters
    rcases case with ⟨e, rfl⟩ | ⟨d, π, active, t, rfl, hit, rfl⟩ | ⟨d, x, rfl, -, hx, rfl⟩
    · exact .inl (.failing (hs.trans on) enters hc)
    · refine .inr ⟨before, owner, key, d, requests, .inl ⟨π, hit, ?_⟩⟩
      rcases linkPendingResolution_waits s k π active t with ⟨link, waits⟩ | ⟨e, fails⟩
      · exact .waiting rfl (hs.trans on) enters (hc.trans waits)
      · exact .failing (hs.trans on) enters (hc.trans fails)
    · refine .inr ⟨before, owner, key, d, requests, .inr ⟨⟨_, _, _, rfl, hx⟩, ?_⟩⟩
      have making : Move.stack s k (.create x before (s.instantiate w owner p).1 (s.instantiate w owner p).2) =
          (s.instantiate w owner p).1 ++ .settle s.promises.size :: (before ++ entered ++ stack) := by
        rw [← on]
        simp only [Move.stack, List.append_assoc, List.cons_append]
      exact .making rfl (hs.trans making) enters fun r done => instantiate_not_done _ _ _ r (hc.symm.trans done)

/-- A pursuit goes on with every step, until the context replies. -/
theorem Pursues.step {e : Event} (h : Pursues s k stack these) (l : Ledger s) (c : Configured s)
    (kind : StepKind w s e s') (made : ∀ π, these π → π < s.promises.size) (born : k < s.contexts.size)
    (unanswered : stack ≠ [] → s.reply k stack = none) : Pursues s' k stack these := by
  have awake : ∀ start wait, s.ctl k ≠ .stale start wait := by
    intro start wait stale
    cases h with
    | making _ frames =>
      have := l.asleep k start wait stale
      rw [frames] at this
      simp at this
    | waiting _ _ _ ctl | back _ _ _ ctl | failing _ _ ctl | done _ ctl => cases ctl.symm.trans stale
  have kept {π : Nat} (this : these π) (v : Val) (status : (s.promises.get π).status = .fulfilled v) :
      (s'.promises.get π).status = .fulfilled v := (kind.later l c).fulfilled π v (made π this) status
  rcases kind.context born awake with ⟨hs, hc⟩ | ⟨m, hm, rfl⟩
  · cases h with
    | making this frames only going => exact .making this (hs.trans frames) only (by rw [hc]; exact going)
    | waiting this frames only ctl => exact .waiting this (hs.trans frames) only (hc.trans ctl)
    | back this frames only ctl status => exact .back this (hs.trans frames) only (hc.trans ctl) (kept this _ status)
    | failing frames only ctl => exact .failing (hs.trans frames) only (hc.trans ctl)
    | done bottom ctl value => exact .done bottom (hc.trans ctl) fun v e => (value v e).imp fun π h => ⟨h.1, kept h.1 v h.2⟩
  · have hs : (s.apply k m).stack k = Move.stack s k m := by rw [apply_stack, if_pos rfl]
    have hc : (s.apply k m).ctl k = Move.ctl s m := by rw [apply_ctl, if_pos rfl]
    -- Back on `stack` there is a reply, so `stack` is empty.
    have bottom {r : Except Rejection Val} (replied : s.reply k stack = some r) : stack = [] := by
      by_contra under
      rw [unanswered under] at replied
      cases replied
    cases h with
    | making this frames only going =>
      rcases hm.above frames with ⟨above', e⟩ | ⟨e, ⟨v, uses, rfl⟩ | ⟨err, rfl⟩⟩
      · refine .making this (hs.trans e) only fun r done => ?_
        have := hm.done (hc.symm.trans done)
        rw [frames] at this
        simp at this
      · exact .back this (hs.trans e) only hc (by rw [apply_promises]; simp [Move.promises])
      · exact .failing (hs.trans e) only hc
    | waiting this frames only ctl =>
      rcases hm.of_awaiting ctl with ⟨v, status, rfl⟩ | ⟨err, rfl⟩
      · exact .back this (hs.trans frames) only hc (kept this v status)
      · exact .failing (hs.trans frames) only hc
    | @back π entered v uses this frames only ctl status =>
      cases entered with
      | nil =>
        have empty := bottom (r := .ok v) (by simp [Sys.reply, ctl, frames])
        subst empty
        obtain rfl := (hm.of_returning ctl).2 frames
        exact .done rfl hc fun u e => by cases e; exact ⟨π, this, kept this v status⟩
      | cons f entered =>
        obtain ⟨t, rfl⟩ := only f List.mem_cons_self
        obtain rfl := (hm.of_returning ctl).1 t _ frames
        exact .back this (hs.trans (by rw [Move.stack, frames]; rfl)) (fun g hg => only g (List.mem_cons_of_mem _ hg)) hc
          (kept this v status)
    | @failing entered err frames only ctl =>
      cases entered with
      | nil =>
        have empty := bottom (r := .error err) (by simp [Sys.reply, ctl, frames])
        subst empty
        obtain rfl := (hm.of_unwinding ctl).2 frames
        exact .done rfl hc fun v e => by cases e
      | cons f entered =>
        obtain ⟨t, rfl⟩ := only f List.mem_cons_self
        obtain rfl := (hm.of_unwinding ctl).1 t _ frames
        exact .failing (hs.trans (by rw [Move.stack, frames]; rfl)) (fun g hg => only g (List.mem_cons_of_mem _ hg)) hc
    | done bottom ctl value =>
      exact absurd ctl (hm.under_way _)

end Sys

end Fluo.Di
