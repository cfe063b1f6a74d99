import Fluo.Di.Effects

/-!
# Which context settles which promise

A pending promise has exactly one `settle` frame, on the stack of the context
that made it, and a cache entry names a promise made for that very slot.
-/

namespace Fluo.Di

def Frame.settles : Frame → Option Nat
  | .settle promise => some promise
  | _ => none

namespace Sys

variable {w : World} {s s' : Sys} {k : Nat}

/-- The promises a context has yet to settle, innermost first. -/
def owed (s : Sys) (k : Nat) : List Nat := (s.stack k).filterMap Frame.settles

structure Ledger (s : Sys) : Prop where
  owed : ∀ k, ∀ π ∈ s.owed k, π < s.promises.size ∧ (s.promises.get π).context = k ∧
    (s.promises.get π).status = .pending
  pending : ∀ π < s.promises.size, (s.promises.get π).status = .pending →
    π ∈ s.owed (s.promises.get π).context
  nodup : ∀ k, (s.owed k).Nodup
  born : ∀ π < s.promises.size, (s.promises.get π).context < s.contexts.size
  unborn : ∀ k, s.contexts.size ≤ k → s.stack k = [] ∧ s.ctl k = .done (.ok .undefined)
  asleep : ∀ k start wait, s.ctl k = .stale start wait → s.stack k = []
  cached : ∀ c key π, s.cached c key = some π →
    π < s.promises.size ∧ (s.promises.get π).home = c ∧ (s.promises.get π).key = key

/-! ## What a step does to a stack -/

theorem instantiate_frames (s : Sys) (c : Nat) (p : NormalizedProvider) :
    (s.instantiate w c p).1.filterMap Frame.settles = [] := by
  unfold instantiate
  split
  · rfl
  · split <;> rfl

theorem instantiate_not_stale (s : Sys) (c : Nat) (p : NormalizedProvider) (start : Start) (wait : StaleWait) :
    (s.instantiate w c p).2 ≠ .stale start wait := by
  unfold instantiate
  split
  · nofun
  · split <;> nofun

theorem beginResolution_frames (start : Start) (s : Sys) :
    (beginResolution w start s).1.filterMap Frame.settles = [] := by
  cases start with
  | resolve c t => rfl
  | contribution c t index =>
    simp only [beginResolution]
    split
    · rfl
    · split <;> rfl

theorem beginResolution_not_stale (start : Start) (s : Sys) (start' : Start) (wait : StaleWait) :
    (beginResolution w start s).2 ≠ .stale start' wait := by
  cases start with
  | resolve c t => nofun
  | contribution c t index =>
    simp only [beginResolution]
    split
    · nofun
    · split <;> nofun

theorem linkPendingResolution_not_stale (s : Sys) (k promise : Nat) (active : List Token) (t : Token)
    (start : Start) (wait : StaleWait) : s.linkPendingResolution k promise active t ≠ .stale start wait := by
  unfold linkPendingResolution
  dsimp only
  split
  · nofun
  · split <;> nofun

theorem Requests.frames {before : List Frame} {owner : Nat} {key : CacheKey} {p : NormalizedProvider}
    {home : Except DiError Nat} (h : s.Requests k before owner key p home) :
    before.filterMap Frame.settles = [] := by
  cases h with
  | single _ _ _ _ _ _ entered => rcases entered with rfl | ⟨rfl, -⟩ <;> rfl
  | contribution => rfl

theorem Moves.owed {m : Move} (h : Moves w s k m) : match m with
    | .create _ _ _ _ => (Move.stack s k m).filterMap Frame.settles = s.promises.size :: s.owed k
    | .fulfil π _ _ | .reject π _ => s.owed k = π :: (Move.stack s k m).filterMap Frame.settles
    | _ => (Move.stack s k m).filterMap Frame.settles = s.owed k := by
  cases h with
  | cycle | unregistered | aliasContribution | runFactory | awaited | awaitFailed | returned | failed => rfl
  | multi | aliasToken => rfl
  | transientToken | transientContribution =>
    simp [Move.stack, Sys.owed, Frame.settles, List.filterMap_cons, instantiate_frames]
  | refused requests => simp [Move.stack, Sys.owed, requests.frames]
  | cached requests => simp [Move.stack, Sys.owed, requests.frames]
  | create requests => simp [Move.stack, Sys.owed, Frame.settles, requests.frames, instantiate_frames]
  | skipDependency _ top | evalDependency _ top | nextContribution _ top | contributed _ top | supplied _ top =>
    simp [Move.stack, Sys.owed, top, Frame.settles, List.filterMap_cons]
  | collected _ top | leave _ top | made _ _ top | shared _ _ top | thrown _ _ top =>
    simp [Move.stack, Sys.owed, top, Frame.settles, List.filterMap_cons]
  | fulfil _ top | reject _ top => simp [Move.stack, Sys.owed, top, Frame.settles]
  | @unwind e f tail _ top frame =>
    have : f.settles = none := by
      cases f with
      | settle promise => exact absurd rfl (frame promise)
      | enter | contributions | deps => rfl
    simp [Move.stack, Sys.owed, top, this]

theorem Moves.not_stale {m : Move} (h : Moves w s k m) (start : Start) (wait : StaleWait) :
    Move.ctl s m ≠ .stale start wait := by
  cases h with
  | transientToken | transientContribution | create => exact instantiate_not_stale _ _ _ start wait
  | cached => exact linkPendingResolution_not_stale _ _ _ _ _ start wait
  | _ => nofun

/-! ## Promises over a step -/

/-- A step settles a promise at most; everything else about it is fixed. -/
theorem Moves.promise {m : Move} (h : Moves w s k m) {π : Nat} (hπ : π < s.promises.size) :
    (s.apply k m).promises.get π = s.promises.get π ∨ π ∈ s.owed k ∧ ∃ status uses, status ≠ .pending ∧
      (s.apply k m).promises.get π = { s.promises.get π with status := status, uses := uses } := by
  have owed := h.owed
  rw [apply_promises]
  cases m with
  | create m before frames ctl => exact .inl (Heap.get_push_lt m hπ)
  | goto | push | replace | pop | allocate => exact .inl rfl
  | fulfil promise v uses =>
    by_cases e : π = promise
    · subst e
      exact .inr ⟨by rw [owed]; exact List.mem_cons_self, .fulfilled v, uses, nofun,
        by simp [Move.promises]⟩
    · exact .inl (by simp [Move.promises, Heap.get_modify, e])
  | reject promise err =>
    by_cases e : π = promise
    · subst e
      exact .inr ⟨by rw [owed]; exact List.mem_cons_self, .rejected err, [], nofun,
        by simp [Move.promises]⟩
    · exact .inl (by simp [Move.promises, Heap.get_modify, e])

theorem promises_size_le {m : Move} : s.promises.size ≤ (s.apply k m).promises.size := by
  rw [apply_promises]
  cases m with
  | create => exact Nat.le_succ _
  | _ => exact Nat.le_refl _

/-! ## The ledger is kept -/

theorem Ledger.initial : Ledger Sys.initial where
  owed k π h := by cases h
  pending π h := by cases h
  nodup k := List.nodup_nil
  born π h := by cases h
  unborn k _ := ⟨rfl, rfl⟩
  asleep k start wait h := by cases h
  cached c key π h := by
    simp only [Sys.cached, Sys.initial, Heap.get_push] at h
    split at h <;> cases h

theorem Ledger.quiet (h : Ledger s) (q : Quiet s s') : Ledger s' := by
  have stack : ∀ k, s'.stack k = s.stack k := fun k => by rw [Sys.stack, q.contexts]; rfl
  have ctl : ∀ k, s'.ctl k = s.ctl k := fun k => by rw [Sys.ctl, q.contexts]; rfl
  have owed : ∀ k, s'.owed k = s.owed k := fun k => by rw [Sys.owed, stack]; rfl
  constructor
  · intro k π hπ; rw [owed] at hπ; rw [q.promises]; exact h.owed k π hπ
  · intro π hπ hp; rw [q.promises] at hπ hp ⊢; rw [owed]; exact h.pending π hπ hp
  · intro k; rw [owed]; exact h.nodup k
  · intro π hπ; rw [q.promises] at hπ ⊢; rw [q.contexts]; exact h.born π hπ
  · intro k hk; rw [q.contexts] at hk; rw [stack, ctl]; exact h.unborn k hk
  · intro k start wait hk; rw [ctl] at hk; rw [stack]; exact h.asleep k start wait hk
  · intro c key π hc; rw [q.promises]; exact h.cached c key π (q.cache c key π hc)

/-- A stack without promises of its own takes the place of an empty one. -/
theorem Ledger.setContext (h : Ledger s) {k : Nat} {stack : List Frame} {ctl : Ctl}
    (hk : k < s.contexts.size) (old : s.stack k = []) (new : stack.filterMap Frame.settles = [])
    (stale : ∀ start wait, ctl = .stale start wait → stack = []) : Ledger (s.setContext k stack ctl) := by
  have hstack : ∀ j, (s.setContext k stack ctl).stack j = if j = k then stack else s.stack j := by
    intro j; simp only [Sys.stack, Sys.setContext, Heap.get_set]; split <;> rfl
  have hctl : ∀ j, (s.setContext k stack ctl).ctl j = if j = k then ctl else s.ctl j := by
    intro j; simp only [Sys.ctl, Sys.setContext, Heap.get_set]; split <;> rfl
  have howed : ∀ j, (s.setContext k stack ctl).owed j = s.owed j := by
    intro j
    rw [Sys.owed, hstack]
    split
    · rename_i e; rw [e, new, Sys.owed, old]; rfl
    · rfl
  constructor
  · intro j π hπ; rw [howed] at hπ; exact h.owed j π hπ
  · intro π hπ hp; rw [howed]; exact h.pending π hπ hp
  · intro j; rw [howed]; exact h.nodup j
  · exact h.born
  · intro j hj
    have hj : s.contexts.size ≤ j := hj
    rw [hstack, hctl, if_neg (by omega), if_neg (by omega)]
    exact h.unborn j hj
  · intro j start wait hj
    rw [hctl] at hj
    rw [hstack]
    split at hj
    · rename_i e; rw [if_pos e]; exact stale start wait hj
    · rename_i e; rw [if_neg e]; exact h.asleep j start wait hj
  · exact h.cached

theorem Ledger.start (h : Ledger s) (start : Start) : Ledger (startContext start s) := by
  have hnew := h.unborn s.contexts.size (Nat.le_refl _)
  have hstack : ∀ j, (startContext start s).stack j = s.stack j := by
    intro j
    simp only [Sys.stack, startContext, Heap.get_push]
    split
    · rename_i e; rw [e]; exact hnew.1.symm
    · rfl
  have howed : ∀ j, (startContext start s).owed j = s.owed j := fun j => by rw [Sys.owed, hstack]; rfl
  constructor
  · intro j π hπ; rw [howed] at hπ; exact h.owed j π hπ
  · intro π hπ hp; rw [howed]; exact h.pending π hπ hp
  · intro j; rw [howed]; exact h.nodup j
  · intro π hπ; exact Nat.lt_succ_of_lt (h.born π hπ)
  · intro j hj
    have hj : s.contexts.size + 1 ≤ j := hj
    have old := h.unborn j (by omega)
    refine ⟨by rw [hstack]; exact old.1, ?_⟩
    have : (startContext start s).ctl j = s.ctl j := by
      simp only [Sys.ctl, startContext, Heap.get_push, show j ≠ s.contexts.size by omega, ↓reduceIte]
    rw [this]
    exact old.2
  · intro j start' wait hj
    rw [hstack]
    by_cases e : j = s.contexts.size
    · rw [e]; exact hnew.1
    · refine h.asleep j start' wait ?_
      simpa only [Sys.ctl, startContext, Heap.get_push, e, ↓reduceIte] using hj
  · exact h.cached

theorem apply_owed (s : Sys) (k : Nat) (m : Move) (j : Nat) :
    (s.apply k m).owed j = if j = k then (Move.stack s k m).filterMap Frame.settles else s.owed j := by
  rw [Sys.owed, apply_stack]
  split <;> rfl

theorem Moves.created {m : Materialization} {before frames : List Frame} {ctl : Ctl}
    (h : Moves w s k (.create m before frames ctl)) :
    m.context = k ∧ m.status = .pending ∧ m.uses = [] ∧ m.view = s.view m.owner ∧
      s.cached m.home m.key = none ∧ s.Requests k before m.owner m.key m.provider (.ok m.home) ∧
      (frames, ctl) = s.instantiate w m.owner m.provider := by
  cases h with
  | create requests miss => exact ⟨rfl, rfl, rfl, rfl, miss, requests, rfl⟩

section Move

variable {m : Move}

theorem Ledger.apply_unborn (h : Ledger s) (hk : k < s.contexts.size) (m : Move) :
    ∀ j, (s.apply k m).contexts.size ≤ j →
      (s.apply k m).stack j = [] ∧ (s.apply k m).ctl j = .done (.ok .undefined) := by
  intro j hj
  rw [apply_contexts_size] at hj
  rw [apply_stack, apply_ctl, if_neg (by omega), if_neg (by omega)]
  exact h.unborn j hj

theorem Ledger.apply_asleep (h : Ledger s) (hm : Moves w s k m) :
    ∀ j start wait, (s.apply k m).ctl j = .stale start wait → (s.apply k m).stack j = [] := by
  intro j start wait hj
  rw [apply_ctl] at hj
  rw [apply_stack]
  split at hj
  · exact absurd hj (hm.not_stale start wait)
  · rename_i e; rw [if_neg e]; exact h.asleep j start wait hj

theorem Ledger.keep (h : Ledger s) (hk : k < s.contexts.size) (hm : Moves w s k m)
    (hp : Move.promises s m = s.promises) (ho : (Move.stack s k m).filterMap Frame.settles = s.owed k)
    (hc : ∀ c key, (s.apply k m).cached c key = s.cached c key) : Ledger (s.apply k m) := by
  have owed : ∀ j, (s.apply k m).owed j = s.owed j := by
    intro j
    rw [apply_owed, ho]
    split
    · rename_i e; rw [e]
    · rfl
  constructor
  · intro j π hπ; rw [owed] at hπ; rw [apply_promises, hp]; exact h.owed j π hπ
  · intro π hπ; rw [apply_promises, hp] at hπ ⊢; rw [owed]; exact h.pending π hπ
  · intro j; rw [owed]; exact h.nodup j
  · intro π hπ; rw [apply_promises, hp] at hπ ⊢; rw [apply_contexts_size]; exact h.born π hπ
  · exact h.apply_unborn hk m
  · exact h.apply_asleep hm
  · intro c key π hπ; rw [hc] at hπ; rw [apply_promises, hp]; exact h.cached c key π hπ

theorem Ledger.settle (h : Ledger s) (hk : k < s.contexts.size) (hm : Moves w s k m) {π : Nat}
    {f : Materialization → Materialization} (hp : Move.promises s m = s.promises.modify π f)
    (hf : ∀ x, (f x).context = x.context ∧ (f x).home = x.home ∧ (f x).key = x.key ∧ (f x).status ≠ .pending)
    (ho : s.owed k = π :: (Move.stack s k m).filterMap Frame.settles)
    (hc : ∀ c key π', (s.apply k m).cached c key = some π' → s.cached c key = some π') :
    Ledger (s.apply k m) := by
  have get : ∀ π', ((s.apply k m).promises.get π').context = (s.promises.get π').context ∧
      ((s.apply k m).promises.get π').home = (s.promises.get π').home ∧
      ((s.apply k m).promises.get π').key = (s.promises.get π').key := by
    intro π'
    rw [apply_promises, hp, Heap.get_modify]
    split
    · rename_i e; subst e; exact ⟨(hf _).1, (hf _).2.1, (hf _).2.2.1⟩
    · exact ⟨rfl, rfl, rfl⟩
  have size : (s.apply k m).promises.size = s.promises.size := by rw [apply_promises, hp]; rfl
  have status : ∀ π' ≠ π, ((s.apply k m).promises.get π').status = (s.promises.get π').status := by
    intro π' hne; rw [apply_promises, hp, Heap.get_modify_ne _ _ hne]
  have settled : ((s.apply k m).promises.get π).status ≠ .pending := by
    rw [apply_promises, hp, Heap.get_modify_self]; exact (hf _).2.2.2
  have distinct : π ∉ (Move.stack s k m).filterMap Frame.settles ∧
      ((Move.stack s k m).filterMap Frame.settles).Nodup := by
    have := h.nodup k; rw [ho] at this; exact List.nodup_cons.mp this
  have owed : ∀ j, ∀ π' ∈ (s.apply k m).owed j, π' ∈ s.owed j ∧ π' ≠ π := by
    intro j π' hπ'
    rw [apply_owed] at hπ'
    split at hπ'
    · rename_i e
      subst e
      exact ⟨by rw [ho]; exact List.mem_cons_of_mem _ hπ', fun e => distinct.1 (e ▸ hπ')⟩
    · rename_i hj
      refine ⟨hπ', fun e => hj ?_⟩
      subst e
      rw [← (h.owed j π' hπ').2.1, (h.owed k π' (by rw [ho]; exact List.mem_cons_self)).2.1]
  constructor
  · intro j π' hπ'
    obtain ⟨hold, hne⟩ := owed j π' hπ'
    rw [size, (get π').1, status π' hne]
    exact h.owed j π' hold
  · intro π' hπ' hpend
    rw [size] at hπ'
    have hne : π' ≠ π := fun e => settled (e ▸ hpend)
    rw [status π' hne] at hpend
    have := h.pending π' hπ' hpend
    rw [(get π').1, apply_owed]
    split
    · rename_i e
      rw [e, ho] at this
      exact (List.mem_cons.mp this).resolve_left hne
    · exact this
  · intro j
    rw [apply_owed]
    split
    · exact distinct.2
    · exact h.nodup j
  · intro π' hπ'
    rw [size] at hπ'
    rw [(get π').1, apply_contexts_size]
    exact h.born π' hπ'
  · exact h.apply_unborn hk m
  · exact h.apply_asleep hm
  · intro c key π' hπ'
    rw [size, (get π').2.1, (get π').2.2]
    exact h.cached c key π' (hc c key π' hπ')

/-- A promise is made, and owed by the context that made it. -/
theorem Ledger.create (h : Ledger s) (hk : k < s.contexts.size) {x : Materialization}
    {before frames : List Frame} {ctl : Ctl} (hm : Moves w s k (.create x before frames ctl)) :
    Ledger (s.apply k (.create x before frames ctl)) := by
  obtain ⟨hcontext, hstatus, -⟩ := hm.created
  have get : ∀ π < s.promises.size,
      (s.apply k (.create x before frames ctl)).promises.get π = s.promises.get π := by
    intro π hπ; rw [apply_promises]; exact Heap.get_push_lt x hπ
  have new : (s.apply k (.create x before frames ctl)).promises.get s.promises.size = x := by
    rw [apply_promises]; exact Heap.get_push_self _ x
  have size : (s.apply k (.create x before frames ctl)).promises.size = s.promises.size + 1 := by
    rw [apply_promises]; rfl
  have owed : ∀ j, (s.apply k (.create x before frames ctl)).owed j =
      if j = k then s.promises.size :: s.owed k else s.owed j := by
    intro j; rw [apply_owed, hm.owed]
  have old : ∀ j, ∀ π ∈ s.owed j, π < s.promises.size := fun j π hπ => (h.owed j π hπ).1
  constructor
  · intro j π hπ
    rw [owed] at hπ
    rw [size]
    by_cases e : j = k ∧ π = s.promises.size
    · rw [e.2, new, e.1]
      exact ⟨Nat.lt_succ_self _, hcontext, hstatus⟩
    · have hold : π ∈ s.owed j := by
        split at hπ
        · rename_i ej
          rcases List.mem_cons.mp hπ with eπ | hπ
          · exact absurd ⟨ej, eπ⟩ e
          · rw [ej]; exact hπ
        · exact hπ
      rw [get π (old j π hold)]
      have := h.owed j π hold
      exact ⟨Nat.lt_succ_of_lt this.1, this.2⟩
  · intro π hπ hp
    rw [size] at hπ
    rw [owed]
    by_cases e : π = s.promises.size
    · rw [e, new, hcontext, if_pos rfl]; exact List.mem_cons_self
    · rw [get π (by omega)] at hp ⊢
      have := h.pending π (by omega) hp
      split
      · rename_i ej; rw [ej] at this; exact List.mem_cons_of_mem _ this
      · exact this
  · intro j
    rw [owed]
    split
    · exact List.nodup_cons.mpr ⟨fun hmem => Nat.lt_irrefl _ (old k _ hmem), h.nodup k⟩
    · exact h.nodup j
  · intro π hπ
    rw [size] at hπ
    rw [apply_contexts_size]
    by_cases e : π = s.promises.size
    · rw [e, new, hcontext]; exact hk
    · rw [get π (by omega)]; exact h.born π (by omega)
  · exact h.apply_unborn hk _
  · exact h.apply_asleep hm
  · intro c key π hπ
    rw [apply_cached] at hπ
    dsimp only at hπ
    rw [size]
    split at hπ
    · rename_i e
      cases hπ
      rw [new]
      exact ⟨Nat.lt_succ_self _, e.1.symm, e.2.symm⟩
    · have := h.cached c key π hπ
      rw [get π this.1]
      exact ⟨Nat.lt_succ_of_lt this.1, this.2⟩

theorem Ledger.move (h : Ledger s) (hk : k < s.contexts.size) (hm : Moves w s k m) :
    Ledger (s.apply k m) := by
  have howed := hm.owed
  cases m with
  | goto | push | replace | pop | allocate => exact h.keep hk hm rfl howed fun c key => apply_cached s k _ c key
  | create => exact h.create hk hm
  | fulfil π v uses =>
    refine h.settle hk hm (f := fun x => { x with status := .fulfilled v, uses }) rfl
      (fun x => ⟨rfl, rfl, rfl, nofun⟩) howed ?_
    intro c key π' hπ'; rw [apply_cached] at hπ'; exact hπ'
  | reject π e =>
    refine h.settle hk hm (f := fun x => { x with status := .rejected e, uses := [] }) rfl
      (fun x => ⟨rfl, rfl, rfl, nofun⟩) howed ?_
    intro c key π' hπ'
    rw [apply_cached] at hπ'
    dsimp only at hπ'
    split at hπ'
    · cases hπ'
    · exact hπ'

end Move

theorem Ledger.kind {e : Event} (h : Ledger s) (hs : StepKind w s e s') : Ledger s' := by
  cases hs with
  | still q => exact h.quiet q.toQuiet
  | attempt _ q => exact h.quiet (advanceAttempt_fixed q).toQuiet
  | configure c => exact h.quiet c.quiet
  | start start _ => exact h.start start
  | @wake k t stack ctl hk woken =>
    have q := woken.still.toQuiet
    have asleep : t.stack k = [] := by
      rw [Sys.stack, q.contexts]
      cases woken with
      | round ctl | begin ctl | errors ctl => exact h.asleep k _ _ ctl
    refine (h.quiet q).setContext (by rw [q.contexts]; exact hk) asleep ?_ ?_
    · cases woken with
      | round | errors => rfl
      | begin => exact beginResolution_frames _ _
    · cases woken with
      | round | errors => exact fun _ _ _ => rfl
      | begin => exact fun start wait e => absurd e (beginResolution_not_stale _ _ start wait)
  | move _ hk hm => exact h.move hk hm

theorem Reachable.ledger (h : Reachable w s) : Ledger s :=
  h.induction Ledger.initial fun _ _ _ _ hi hs => hi.kind (step_kind hs)

end Sys

end Fluo.Di
