import Fluo.Di.Soundness
import Fluo.Lib.Search

/-!
# Contexts that wait for each other

A context that has entered a token waits with a link to the context that
settles the promise, and the link is made only if it closes no cycle. A context
that waits without a link owes no promise, so nobody waits for it.
-/

namespace Fluo.Di

open Relation Search

namespace Sys

variable {w : World} {s s' : Sys} {k : Nat}

/-- A context waits for a pending cached promise that another one settles. -/
def WaitsFor (s : Sys) (a b : Nat) : Prop :=
  ∃ π link, s.ctl a = .await π link ∧ (s.promises.get π).status = .pending ∧ (s.promises.get π).context = b

/-- The links that `findPendingResolutionPath` follows. -/
def LinkedTo (s : Sys) (a b : Nat) : Prop := ∃ π, s.ctl a = .await π (some b)

/-- A promise to settle and contributions to collect lie on an entered token. -/
def Entered : List Frame → Prop
  | [] => True
  | .settle _ :: tail | .contributions _ _ _ _ :: tail => (∃ t, Frame.enter t ∈ tail) ∧ Entered tail
  | .enter _ :: tail | .deps _ _ _ _ _ :: tail => Entered tail

structure Waiting (s : Sys) : Prop where
  linked : ∀ k π o, s.ctl k = .await π (some o) → (s.promises.get π).context = o
  unlinked : ∀ k π, s.ctl k = .await π none → (s.promises.get π).status ≠ .pending ∨ s.owed k = []
  entered : ∀ k, Entered (s.stack k)
  contributes : ∀ k c p, s.ctl k = .contribution c p → ∃ t, .enter t ∈ s.stack k
  acyclic : ∀ k, ¬ TransGen s.LinkedTo k k

/-! ## The search for a path of links -/

theorem mem_dependencies {s : Sys} {a b : Nat} : b ∈ s.dependencies a ↔ s.LinkedTo a b := by
  have same : (s.contexts.get a).ctl = s.ctl a := rfl
  unfold dependencies LinkedTo
  rw [same]
  cases s.ctl a with
  | await π link => cases link <;> simp [eq_comm]
  | _ => simp

theorem findPendingResolutionPath_complete {n start target : Nat} {visited : List Nat}
    (unborn : ∀ a b, s.LinkedTo a b → a < s.contexts.size) (path : Avoids s.LinkedTo visited start target)
    (hn : remaining (List.range s.contexts.size) visited < n) :
    s.findPendingResolutionPath n start target visited ≠ none := by
  induction n generalizing start visited with
  | zero => exact absurd hn (Nat.not_lt_zero _)
  | succ n ih =>
    unfold findPendingResolutionPath
    rcases path.cut with rfl | ⟨b, hb, rest⟩
    · simp
    · by_cases e : start = target
      · simp [e]
      · rw [if_neg e, if_neg path.start]
        have hlt := remaining_lt (List.mem_range.mpr (unborn start b hb)) path.start
        have found := ih rest (by omega)
        intro none
        have := List.findSome?_eq_none_iff.mp none b (mem_dependencies.mpr hb)
        exact found (Option.map_eq_none_iff.mp this)

theorem findPendingResolutionPath_sound {n start target : Nat} {visited path : List Nat}
    (h : s.findPendingResolutionPath n start target visited = some path) :
    ReflTransGen s.LinkedTo start target := by
  induction n generalizing start visited path with
  | zero => cases h
  | succ n ih =>
    unfold findPendingResolutionPath at h
    split at h
    · rename_i e; rw [e]
    · split at h
      · cases h
      · obtain ⟨b, hb, h⟩ := List.exists_of_findSome?_eq_some h
        obtain ⟨rest, h, -⟩ := Option.map_eq_some_iff.mp h
        exact .head (mem_dependencies.mp hb) (ih h)

/-- What a context does that finds a promise in a cache: it waits without a
link, it waits with one that closes no cycle, or it reports a cycle of links. -/
inductive Links (s : Sys) (k π : Nat) (active : List Token) : Ctl → Prop
  | unlinked (h : (s.promises.get π).status ≠ .pending ∨ active = []) : Links s k π active (.await π none)
  | linked (pending : (s.promises.get π).status = .pending) (h : active ≠ [])
      (free : s.findPendingResolutionPath (s.contexts.size + 1) (s.promises.get π).context k [] = none) :
      Links s k π active (.await π (some (s.promises.get π).context))
  | cyclic (chain : List Token) (pending : (s.promises.get π).status = .pending)
      (path : ReflTransGen s.LinkedTo (s.promises.get π).context k) :
      Links s k π active (.fail [.di (.circularDependency chain false)])

theorem linkPendingResolution_links (s : Sys) (k π : Nat) (active : List Token) (t : Token) :
    Links s k π active (s.linkPendingResolution k π active t) := by
  unfold linkPendingResolution
  dsimp only
  split
  · rename_i h; exact .unlinked h
  · rename_i h
    rw [not_or, not_not] at h
    split
    · rename_i path found; exact .cyclic _ h.1 (findPendingResolutionPath_sound found)
    · rename_i free; exact .linked h.1 h.2 free

/-! ## Stacks -/

theorem Entered.tail {f : Frame} {tail : List Frame} (h : Entered (f :: tail)) : Entered tail := by
  cases f with
  | settle | contributions => exact h.2
  | enter | deps => exact h

theorem Entered.owes_nothing {stack : List Frame} (h : Entered stack) (none : activeTokens stack = []) :
    stack.filterMap Frame.settles = [] := by
  have absent : ∀ t, Frame.enter t ∉ stack := by
    intro t ht
    have : t ∈ activeTokens stack := List.mem_reverse.mpr (List.mem_filterMap.mpr ⟨_, ht, rfl⟩)
    rw [none] at this
    cases this
  clear none
  induction stack with
  | nil => rfl
  | cons f tail ih =>
    have ih := ih h.tail fun t ht => absent t (List.mem_cons_of_mem f ht)
    cases f with
    | settle π => obtain ⟨⟨t, ht⟩, -⟩ := h; exact absurd (List.mem_cons_of_mem _ ht) (absent t)
    | enter | contributions | deps => simpa [Frame.settles] using ih

theorem instantiate_entered {c : Nat} {p : NormalizedProvider} {l : List Frame} (h : Entered l) :
    Entered ((s.instantiate w c p).1 ++ l) := by
  unfold instantiate
  split
  · exact h
  · split <;> exact h

theorem Requests.entered {before : List Frame} {owner : Nat} {key : CacheKey} {p : NormalizedProvider}
    {home : Except DiError Nat} (h : s.Requests k before owner key p home) (old : Entered (s.stack k)) :
    Entered (before ++ s.stack k) := by
  cases h with
  | single _ _ _ _ _ _ entered => rcases entered with rfl | ⟨rfl, -⟩ <;> exact old
  | contribution => exact old

/-- A token is entered before a promise is made for it. -/
theorem Requests.under {before : List Frame} {owner home : Nat} {key : CacheKey} {p : NormalizedProvider}
    (h : s.Requests k before owner key p (.ok home)) (waiting : Waiting s) (miss : s.cached home key = none) :
    ∃ t, Frame.enter t ∈ before ++ s.stack k := by
  generalize hhome : (Except.ok home : Except DiError Nat) = answer at h
  cases h with
  | @single c t fwd p before ctl fresh reached found direct scope entered =>
    rcases entered with rfl | ⟨rfl, -, home', π, hhome', hit⟩
    · exact ⟨t, List.mem_cons_self⟩
    · rw [← hhome] at hhome'
      cases hhome'
      rw [miss] at hit
      cases hit
  | contribution ctl => exact waiting.contributes k _ _ ctl

theorem Moves.entered {m : Move} (h : Moves w s k m) (waiting : Waiting s) : Entered (Move.stack s k m) := by
  have old := waiting.entered k
  have under : Entered (s.stack k).tail := by
    cases e : s.stack k with
    | nil => trivial
    | cons f tail => rw [e] at old; exact old.tail
  cases h with
  | cycle | unregistered | aliasContribution | runFactory | awaited | awaitFailed | returned | failed => exact old
  | multi => exact ⟨⟨_, List.mem_cons_self⟩, old⟩
  | aliasToken => exact old
  | transientToken =>
    simp only [Move.stack, List.append_assoc]
    exact instantiate_entered (l := .enter _ :: s.stack k) old
  | transientContribution => exact instantiate_entered old
  | refused requests => exact requests.entered old
  | cached requests => exact requests.entered old
  | create requests miss =>
    simp only [Move.stack, List.append_assoc, List.cons_append]
    exact instantiate_entered (l := .settle _ :: _) ⟨requests.under waiting miss, requests.entered old⟩
  | skipDependency | evalDependency | supplied => exact under
  | nextContribution _ top | contributed _ top =>
    rw [top] at old
    exact ⟨by simpa [top] using old.1, under⟩
  | collected | leave | fulfil | unwind | reject | made | shared | thrown => exact under

theorem instantiate_ctl (w : World) (s : Sys) (c : Nat) (p : NormalizedProvider) :
    (s.instantiate w c p).2 = .deps ∨ (∃ e, (s.instantiate w c p).2 = .fail e) ∨
      ∃ v, (s.instantiate w c p).2 = .ret v [] := by
  unfold instantiate
  split
  · exact .inr (.inl ⟨_, rfl⟩)
  · split
    · exact .inr (.inr ⟨_, rfl⟩)
    · exact .inr (.inl ⟨_, rfl⟩)
    · exact .inl rfl
    · exact .inl rfl

theorem Moves.contributes {m : Move} (h : Moves w s k m) (waiting : Waiting s) {c : Nat} {p : NormalizedProvider}
    (hctl : Move.ctl s m = .contribution c p) : ∃ t, Frame.enter t ∈ Move.stack s k m := by
  cases h with
  | nextContribution _ top =>
    have old := waiting.entered k
    rw [top] at old
    obtain ⟨⟨t, ht⟩, -⟩ := old
    exact ⟨t, List.mem_cons_of_mem _ (by rw [top]; exact ht)⟩
  | transientToken | transientContribution | create =>
    rcases instantiate_ctl w s _ _ with e | ⟨_, e⟩ | ⟨_, e⟩ <;> cases e.symm.trans hctl
  | @cached before owner home π key p requests hit =>
    have links := linkPendingResolution_links s k π (activeTokens (before ++ s.stack k)) p.provide
    simp only [Move.ctl] at hctl
    rw [hctl] at links
    cases links
  | _ => cases hctl

/-! ## What a move awaits -/

/-- A move that leads to waiting found the promise in a cache. -/
theorem Moves.awaits {m : Move} (h : Moves w s k m) {π : Nat} {link : Option Nat}
    (hctl : Move.ctl s m = .await π link) : ∃ before owner home key p,
      s.Requests k before owner key p (.ok home) ∧ s.cached home key = some π ∧
      Move.stack s k m = before ++ s.stack k ∧ Move.promises s m = s.promises ∧
      Links s k π (activeTokens (before ++ s.stack k)) (.await π link) := by
  cases h with
  | transientToken | transientContribution | create =>
    rcases instantiate_ctl w s _ _ with e | ⟨_, e⟩ | ⟨_, e⟩ <;> cases e.symm.trans hctl
  | @cached before owner home π' key p requests hit =>
    have links := linkPendingResolution_links s k π' (activeTokens (before ++ s.stack k)) p.provide
    simp only [Move.ctl] at hctl
    rw [hctl] at links
    have : π = π' := by cases links <;> rfl
    subst this
    exact ⟨before, owner, home, key, p, requests, hit, rfl, rfl, links⟩
  | _ => cases hctl

/-! ## The invariant is kept -/

theorem Waiting.initial : Waiting Sys.initial where
  linked k π o h := by cases h
  unlinked k π h := by cases h
  entered k := trivial
  contributes k c p h := by cases h
  acyclic k h := by
    obtain ⟨b, ⟨π, h⟩, -⟩ := TransGen.head'_iff.mp h
    cases h

theorem Waiting.keep (h : Waiting s) (promises : s'.promises = s.promises)
    (contexts : ∀ j, s'.ctl j = s.ctl j ∧ s'.stack j = s.stack j ∨ (∀ π link, s'.ctl j ≠ .await π link) ∧
      Entered (s'.stack j) ∧ ∀ c p, s'.ctl j = .contribution c p → ∃ t, .enter t ∈ s'.stack j) : Waiting s' := by
  have links : ∀ a b, s'.LinkedTo a b → s.LinkedTo a b := by
    rintro a b ⟨π, h⟩
    rcases contexts a with ⟨ctl, -⟩ | ⟨never, -⟩
    · exact ⟨π, by rw [← ctl]; exact h⟩
    · exact absurd h (never _ _)
  constructor
  · intro k π o hk
    rcases contexts k with ⟨ctl, -⟩ | ⟨never, -⟩
    · rw [promises]; exact h.linked k π o (by rw [← ctl]; exact hk)
    · exact absurd hk (never _ _)
  · intro k π hk
    rcases contexts k with ⟨ctl, stack⟩ | ⟨never, -⟩
    · rw [promises, owed, stack]; exact h.unlinked k π (by rw [← ctl]; exact hk)
    · exact absurd hk (never _ _)
  · intro k
    rcases contexts k with ⟨-, stack⟩ | ⟨-, entered, -⟩
    · rw [stack]; exact h.entered k
    · exact entered
  · intro k c p hk
    rcases contexts k with ⟨ctl, stack⟩ | ⟨-, -, contributes⟩
    · rw [stack]; exact h.contributes k c p (by rw [← ctl]; exact hk)
    · exact contributes c p hk
  · exact fun k cycle => h.acyclic k (cycle.lift id links)

theorem Waiting.quiet (h : Waiting s) (q : Quiet s s') : Waiting s' :=
  h.keep q.promises fun j => .inl ⟨by rw [Sys.ctl, q.contexts]; rfl, by rw [Sys.stack, q.contexts]; rfl⟩

theorem beginResolution_entered (start : Start) (s : Sys) : Entered (beginResolution w start s).1 ∧
    (∀ π link, (beginResolution w start s).2 ≠ .await π link) ∧
    ∀ c p, (beginResolution w start s).2 = .contribution c p →
      ∃ t, Frame.enter t ∈ (beginResolution w start s).1 := by
  cases start with
  | resolve c t => exact ⟨trivial, fun _ _ h => (by cases h), fun _ _ h => (by cases h)⟩
  | contribution c t index =>
    simp only [beginResolution]
    split
    · exact ⟨trivial, fun _ _ h => (by cases h), fun _ _ h => (by cases h)⟩
    · split
      · exact ⟨trivial, fun _ _ h => (by cases h), fun _ _ h => (by cases h)⟩
      · exact ⟨trivial, fun _ _ h => (by cases h), fun _ _ _ => ⟨_, List.mem_cons_self⟩⟩

theorem Waiting.move (h : Waiting s) (l : Ledger s) (sound : Sound s) {m : Move} (hm : Moves w s k m) :
    Waiting (s.apply k m) := by
  have context : ∀ π < s.promises.size,
      ((s.apply k m).promises.get π).context = (s.promises.get π).context := by
    intro π hπ
    rcases hm.promise hπ with e | ⟨-, _, _, -, e⟩ <;> rw [e]
  have settled : ∀ π < s.promises.size, (s.promises.get π).status ≠ .pending →
      ((s.apply k m).promises.get π).status ≠ .pending := by
    intro π hπ hs
    rcases hm.promise hπ with e | ⟨-, _, _, status, e⟩
    · rw [e]; exact hs
    · rw [e]; exact status
  have awaited : ∀ j π link, s.ctl j = .await π link → π < s.promises.size := by
    intro j π link hj
    have := sound.ctl j
    rw [hj] at this
    exact this
  constructor
  · intro j π o hj
    rw [apply_ctl] at hj
    split at hj
    · obtain ⟨before, owner, home, key, p, requests, hit, -, -, links⟩ := hm.awaits hj
      rw [context π (l.cached _ _ _ hit).1]
      cases links with
      | linked => rfl
    · rw [context π (awaited j π _ hj)]; exact h.linked j π o hj
  · intro j π hj
    rw [apply_ctl] at hj
    rw [apply_owed]
    split at hj
    · rename_i e
      obtain ⟨before, owner, home, key, p, requests, hit, stack, promises, links⟩ := hm.awaits hj
      rw [if_pos e, stack, apply_promises, promises]
      cases links with
      | unlinked free => exact free.imp_right (requests.entered (h.entered k)).owes_nothing
    · rename_i e
      rw [if_neg e]
      exact (h.unlinked j π hj).imp_left (settled π (awaited j π _ hj))
  · intro j
    rw [apply_stack]
    split
    · exact hm.entered h
    · exact h.entered j
  · intro j c p hj
    rw [apply_ctl] at hj
    rw [apply_stack]
    split at hj
    · rename_i e; rw [if_pos e]; exact hm.contributes h hj
    · rename_i e; rw [if_neg e]; exact h.contributes j c p hj
  · intro j cycle
    by_cases new : ∃ π o, Move.ctl s m = .await π (some o)
    · obtain ⟨π, o, hctl⟩ := new
      obtain ⟨before, owner, home, key, p, requests, hit, -, -, links⟩ := hm.awaits hctl
      have free : ¬ ReflTransGen s.LinkedTo o k := by
        intro path
        cases links with
        | linked pending active free =>
          refine findPendingResolutionPath_complete ?_ (avoids_nil.mpr path) ?_ free
          · rintro a b ⟨π', ha⟩
            by_contra hlt
            rw [(l.unborn a (Nat.not_lt.mp hlt)).2] at ha
            cases ha
          · have := remaining_le (List.range s.contexts.size) []
            rw [List.length_range] at this
            omega
      refine acyclic_insert h.acyclic free j (cycle.lift id ?_)
      rintro a b ⟨π', ha⟩
      rw [apply_ctl] at ha
      split at ha
      · rename_i e
        rw [hctl] at ha
        cases ha
        exact .inr ⟨e, rfl⟩
      · exact .inl ⟨π', ha⟩
    · refine h.acyclic j (cycle.lift id ?_)
      rintro a b ⟨π', ha⟩
      rw [apply_ctl] at ha
      split at ha
      · exact absurd ⟨_, _, ha⟩ new
      · exact ⟨π', ha⟩

theorem Waiting.kind {e : Event} (h : Waiting s) (l : Ledger s) (sound : Sound s) (hs : StepKind w s e s') :
    Waiting s' := by
  cases hs with
  | still q => exact h.quiet q.toQuiet
  | attempt _ q => exact h.quiet (advanceAttempt_fixed q).toQuiet
  | configure q => exact h.quiet q.quiet
  | start start _ =>
    refine h.keep rfl fun j => ?_
    by_cases e : j = s.contexts.size
    · refine .inr ?_
      have new : (startContext start s).contexts.get j = ⟨[], if s.isDisposedInHierarchy start.container then
          .done (.error [.di .containerDisposed]) else .stale start (s.beginStaleWait start.container)⟩ := by
        rw [e]; exact Heap.get_push_self _ _
      simp only [Sys.ctl, Sys.stack, new]
      split <;> exact ⟨fun _ _ h => (by cases h), trivial, fun _ _ h => (by cases h)⟩
    · refine .inl ?_
      have old : (startContext start s).contexts.get j = s.contexts.get j := by
        simp only [startContext, Heap.get_push, e, ↓reduceIte]
      simp only [Sys.ctl, Sys.stack, old, and_self]
  | @wake k t stack ctl hk woken =>
    have q := woken.still.toQuiet
    refine (h.quiet q).keep rfl fun j => ?_
    by_cases e : j = k
    · refine .inr ?_
      have new : (t.setContext k stack ctl).contexts.get j = ⟨stack, ctl⟩ := by
        rw [e]; exact Heap.get_set_self _ _ _
      simp only [Sys.ctl, Sys.stack, new]
      cases woken with
      | round | errors => exact ⟨fun _ _ h => (by cases h), trivial, fun _ _ h => (by cases h)⟩
      | begin => exact ⟨(beginResolution_entered _ _).2.1, (beginResolution_entered _ _).1,
          (beginResolution_entered _ _).2.2⟩
    · refine .inl ?_
      have old : (t.setContext k stack ctl).contexts.get j = t.contexts.get j := Heap.get_set_ne _ _ e
      simp only [Sys.ctl, Sys.stack, old, and_self]
  | move _ hk hm => exact h.move l sound hm

theorem Reachable.waiting (h : Reachable w s) : Waiting s :=
  h.induction .initial fun _ _ _ reachable hi hs => hi.kind reachable.ledger reachable.sound (step_kind hs)

/-! ## Nobody waits in a cycle -/

theorem Waiting.link (h : Waiting s) (l : Ledger s) (sound : Sound s) {a b c : Nat} (before : s.WaitsFor c a)
    (hab : s.WaitsFor a b) : s.LinkedTo a b := by
  obtain ⟨π, link, ctl, pending, rfl⟩ := hab
  cases link with
  | some o => rw [h.linked a π o ctl]; exact ⟨π, ctl⟩
  | none =>
    rcases h.unlinked a π ctl with settled | owes
    · exact absurd pending settled
    · obtain ⟨π', link', ctl', pending', rfl⟩ := before
      have := sound.ctl c
      rw [ctl'] at this
      have := l.pending π' this pending'
      rw [owes] at this
      cases this

theorem Waiting.no_cycle (h : Waiting s) (l : Ledger s) (sound : Sound s) (k : Nat) :
    ¬ TransGen s.WaitsFor k k := by
  intro cycle
  have links {a b : Nat} (path : TransGen s.WaitsFor a b) : ∀ c, s.WaitsFor c a → TransGen s.LinkedTo a b := by
    induction path using TransGen.head_induction_on with
    | single hab => exact fun c hc => .single (h.link l sound hc hab)
    | head hab _ ih => exact fun c hc => .head (h.link l sound hc hab) (ih _ hab)
  obtain ⟨c, -, hc⟩ := TransGen.tail'_iff.mp cycle
  exact h.acyclic k (links cycle c hc)

end Sys

end Fluo.Di
