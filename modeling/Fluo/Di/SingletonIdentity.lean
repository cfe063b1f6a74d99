import Fluo.Di.Answers

/-!
# One instance of a singleton at a time

Between two overrides that evict it, a root singleton has one slot on the
root. Every promise that was ever in the slot during that period is rejected,
or is what the slot holds, so one value answers every request. What breaks this
is the rejection handler, which empties the slot without looking whose promise
is in it.
-/

namespace Fluo.Di

namespace Sys

variable {w : World} {s s' : Sys} {k : Nat}

/-! ## A period of a singleton -/

/-- The step evicts nothing of `p`'s: it is no disposal, and no override that
takes `p`'s entry away. -/
def Unaffected (w : World) (p : NormalizedProvider) (s : Sys) : Event → Prop
  | .attempt _ => False
  | .override c ds => (Sys.override w c ds s).cached 0 p.slot = s.cached 0 p.slot
  | _ => True

/-- A promise made for `p`'s slot is rejected only while it holds the slot or
the slot is empty, and a factory of `p` returns only while its promise holds it. -/
def SettlesInPlace (p : NormalizedProvider) (s : Sys) : Event → Prop
  | .context k =>
    match s.stack k, s.ctl k with
    | .settle π :: _, .fail _ => (s.promises.get π).home = 0 → (s.promises.get π).key = p.slot →
      s.cached 0 p.slot = some π ∨ s.cached 0 p.slot = none
    | _, _ => True
  | .factory _ (.throws _) => True
  | .factory k _ =>
    match s.stack k with
    | .deps _ q _ _ _ :: .settle π :: _ => q = p → s.cached 0 p.slot = some π
    | _ => True
  | _ => True

instance (p : NormalizedProvider) (s : Sys) (e : Event) : Decidable (Unaffected w p s e) := by
  unfold Unaffected
  split <;> infer_instance

instance (p : NormalizedProvider) (s : Sys) (e : Event) : Decidable (SettlesInPlace p s e) := by
  unfold SettlesInPlace
  split
  · split <;> infer_instance
  · infer_instance
  · split <;> infer_instance
  · infer_instance

/-- Cached when the period begins in `s₀`, or made later. -/
def Current (s₀ : Sys) (p : NormalizedProvider) (π : Nat) : Prop :=
  s₀.promises.size ≤ π ∨ s₀.cached 0 p.slot = some π

/-- A run of `es` from `s` passes `t`, with `rest` still to come. -/
def Passes (w : World) (s : Sys) (es : List Event) (t : Sys) (rest : List Event) : Prop :=
  ∃ before, es = before ++ rest ∧ run w s before = some t

/-- What the period of `es` from `s₀` to `s` has seen of `p`. Its factory
completed at most once, one value is what it completed with and what every
request made in the period was answered with, also as the result of a
`resolve`, and a promise of `p` leaves the slot only by being rejected. -/
structure OneInstance (w : World) (s₀ : Sys) (es : List Event) (s : Sys) (p : NormalizedProvider) : Prop where
  once : ∀ t e rest v, Passes w s₀ es t (e :: rest) → Completes t p e v → ∀ t', step w t e = some t' →
    ∀ u e' rest' v', Passes w t' rest u (e' :: rest') → ¬ Completes u p e' v'
  one : ∃ v, (∀ t e rest u, Passes w s₀ es t (e :: rest) → Completes t p e u → u = v) ∧
    (∀ t k rest u, Passes w s₀ es t (.context k :: rest) → Asks t k p →
      answer w k (t.stack k) t (.context k :: rest) = some (.ok u) → u = v) ∧
    ∀ t k rest u, Passes w s₀ es t (.context k :: rest) → Asks t k p → (∀ f ∈ t.stack k, ∃ t, f = .enter t) →
      s.ctl k = .done (.ok u) → u = v
  kept : ∀ t rest π, Passes w s₀ es t rest → t.cached 0 p.slot = some π →
    s.cached 0 p.slot = some π ∨ ∃ e, (s.promises.get π).status = .rejected e

/-- A promise of `p`'s slot in the period. -/
def Mine (s₀ s : Sys) (p : NormalizedProvider) (π : Nat) : Prop :=
  π < s.promises.size ∧ (s.promises.get π).home = 0 ∧ (s.promises.get π).key = p.slot ∧ Current s₀ p π

structure InPeriod (s₀ s : Sys) (p : NormalizedProvider) : Prop where
  promises : s₀.promises.size ≤ s.promises.size
  rooted : ∀ d, (s.registry d).Holds p → d = 0
  named : p.ref < s.nextRef
  kept : ∀ π, Mine s₀ s p π → s.cached 0 p.slot = some π ∨ ∃ e, (s.promises.get π).status = .rejected e
  slot : ∀ π, s.cached 0 p.slot = some π → Current s₀ p π

theorem InPeriod.begin {p : NormalizedProvider} (reachable : Reachable w s) (rooted : (s.registry 0).Holds p) :
    InPeriod s s p where
  promises := Nat.le_refl _
  rooted d hd := (reachable.configured.distinct d 0 p p hd rooted rfl).1
  named := (reachable.configured.named 0 p rooted).1
  kept π mine := by
    rcases mine.2.2.2 with new | held
    · exact absurd mine.1 (Nat.not_lt.mpr new)
    · exact .inl held
  slot π hπ := .inr hπ

theorem InPeriod.congr {s₀ : Sys} {p : NormalizedProvider} (h : InPeriod s₀ s p) (g : Grows s s')
    (promises : s'.promises = s.promises) (cached : s'.cached 0 p.slot = s.cached 0 p.slot) : InPeriod s₀ s' p := by
  constructor
  · rw [promises]; exact h.promises
  · intro d hd
    rcases g.holds d p hd with hd | hd
    · exact h.rooted d hd
    · exact absurd h.named (Nat.not_lt.mpr hd)
  · exact Nat.lt_of_lt_of_le h.named g.nextRef
  · intro π mine
    rw [Mine, promises] at mine
    rw [promises, cached]
    exact h.kept π mine
  · rw [cached]; exact h.slot

section Move

variable {s₀ : Sys} {p : NormalizedProvider} {m : Move}

theorem Moves.rejected (h : Moves w s k m) (l : Ledger s) {π : Nat} (hπ : π < s.promises.size)
    (hr : ∃ e, (s.promises.get π).status = .rejected e) :
    ∃ e, ((s.apply k m).promises.get π).status = .rejected e := by
  obtain ⟨e, he⟩ := hr
  rcases h.promise hπ with e' | ⟨owed, -⟩
  · exact ⟨e, by rw [e']; exact he⟩
  · rw [(l.owed k π owed).2.2] at he; cases he

theorem apply_created {π : Nat} (hπ : π < (s.apply k m).promises.size) (hold : ¬ π < s.promises.size) :
    π = s.promises.size ∧ ∃ x before frames ctl, m = .create x before frames ctl ∧
      (s.apply k m).promises.get π = x := by
  rw [apply_promises] at hπ ⊢
  cases m with
  | create x before frames ctl =>
    have e := Nat.eq_of_lt_succ_of_not_lt hπ hold
    exact ⟨e, x, before, frames, ctl, rfl, by rw [e]; exact Heap.get_push_self _ x⟩
  | _ => exact absurd hπ hold

/-- Whoever asks for `p` asks for its slot on the root. -/
theorem InPeriod.requested (h : InPeriod s₀ s p) (singleton : p.scope = .singleton) (c : Configured s)
    (sound : Sound s) {before : List Frame} {owner home : Nat} {key : CacheKey}
    (requests : s.Requests k before owner key p (.ok home)) : home = 0 ∧ key = p.slot := by
  refine ⟨?_, (requests.slot c (sound.ctl k)).1⟩
  rcases requests.home c (sound.ctl k) singleton with e | ⟨-, holds⟩
  · exact e
  · exact h.rooted _ holds

/-- What the slot holds stays there, unless it is rejected itself. -/
theorem Moves.slot_kept (h : Moves w s k m) (settles : ∀ π tail err, s.stack k = .settle π :: tail →
      s.ctl k = .fail err → (s.promises.get π).home = 0 → (s.promises.get π).key = p.slot →
      s.cached 0 p.slot = some π ∨ s.cached 0 p.slot = none)
    {π : Nat} (held : s.cached 0 p.slot = some π) :
    (s.apply k m).cached 0 p.slot = some π ∨ ∃ e, ((s.apply k m).promises.get π).status = .rejected e := by
  rw [apply_cached]
  cases h with
  | create _ miss =>
    refine .inl ((if_neg fun ⟨e1, e2⟩ => ?_).trans held)
    dsimp only at e1 e2
    rw [← e1, ← e2, held] at miss
    cases miss
  | @reject err π' tail ctl top =>
    dsimp only
    split
    · rename_i e
      rcases settles π' tail err top ctl e.1.symm e.2.symm with e' | e'
      · rw [held] at e'
        cases e'
        refine .inr ⟨err, ?_⟩
        rw [apply_promises]
        simp [Move.promises]
      · rw [held] at e'; cases e'
    · exact .inl held
  | _ => exact .inl held

theorem apply_cached_new {c : Nat} {key : CacheKey} {π : Nat} (h : (s.apply k m).cached c key = some π) :
    s.cached c key = some π ∨ π = s.promises.size := by
  rw [apply_cached] at h
  cases m with
  | goto | push | replace | pop | allocate | fulfil => exact .inl h
  | create x before frames ctl =>
    dsimp only at h
    split at h
    · exact .inr (Option.some.inj h).symm
    · exact .inl h
  | reject π' err =>
    dsimp only at h
    split at h
    · cases h
    · exact .inl h

theorem InPeriod.move (h : InPeriod s₀ s p) (l : Ledger s) (hm : Moves w s k m)
    (settles : s.ctl k ≠ .running → SettlesInPlace p s (.context k)) : InPeriod s₀ (s.apply k m) p := by
  have rejects (π : Nat) (tail : List Frame) (err : Rejection) (top : s.stack k = .settle π :: tail)
      (ctl : s.ctl k = .fail err) : (s.promises.get π).home = 0 → (s.promises.get π).key = p.slot →
        s.cached 0 p.slot = some π ∨ s.cached 0 p.slot = none := by
    simpa only [SettlesInPlace, top, ctl] using settles (by rw [ctl]; nofun)
  have later := hm.later l
  have registry : ∀ d, (s.apply k m).registry d = s.registry d := fun d => (apply_container s k m d).1
  constructor
  · exact Nat.le_trans h.promises later.promises
  · intro d hd; rw [registry] at hd; exact h.rooted d hd
  · rw [apply_nextRef]; exact h.named
  · rintro π ⟨made, home, key, current⟩
    by_cases old : π < s.promises.size
    · rw [(hm.placed old).1] at home
      rw [(hm.placed old).2] at key
      rcases h.kept π ⟨old, home, key, current⟩ with held | rejected
      · exact hm.slot_kept rejects held
      · exact .inr (hm.rejected l old rejected)
    · obtain ⟨rfl, x, before, frames, ctl, rfl, hx⟩ := apply_created made old
      rw [hx] at home key
      left
      rw [apply_cached]
      exact if_pos ⟨home.symm, key.symm⟩
  · intro π hπ
    rcases apply_cached_new hπ with hπ | rfl
    · exact h.slot π hπ
    · exact .inl h.promises

end Move

theorem Configures.cached {e : Event} (q : Configures w s e s') {d : Nat} (hd : d < s.containers.size)
    {key : CacheKey} (override : ∀ c ds, e = .override c ds →
      (Sys.override w c ds s).cached d key = s.cached d key) : s'.cached d key = s.cached d key := by
  cases q with
  | register ds =>
    have fold : ∀ (ds : List Provider) (t : Sys) (c : Nat), (registerAll w c ds t).cached d key = t.cached d key := by
      intro ds
      induction ds with
      | nil => exact fun _ _ => rfl
      | cons x rest ih =>
        intro t c
        unfold registerAll
        dsimp only
        split
        · rfl
        · refine (ih _ c).trans ?_
          simp only [Sys.cached, Sys.setRegistry, Sys.modifyContainer, Heap.get_modify]
          split
          · rename_i e; rw [e]; rfl
          · rfl
    unfold Sys.register
    split
    · rfl
    · exact fold ds s _
  | override ds => exact override _ ds rfl
  | createRequestScope =>
    unfold Sys.createRequestScope
    split
    · rfl
    · simp only [Sys.cached, Heap.get_push, Nat.ne_of_lt hd, ↓reduceIte]

theorem InPeriod.step {s₀ : Sys} {e : Event} {p : NormalizedProvider} (h : InPeriod s₀ s p)
    (reachable : Reachable w s) (cond : Unaffected w p s e ∧ SettlesInPlace p s e) (hs : Sys.step w s e = some s') : InPeriod s₀ s' p := by
  have l := reachable.ledger
  have c := reachable.configured
  have quiet {s' : Sys} (q : Still s s') : InPeriod s₀ s' p :=
    h.congr (.of_eq q.nextRef fun d => (q.config d).1) q.promises (by rw [Sys.cached, q.kept]; rfl)
  cases step_kind hs with
  | still q => exact quiet q
  | attempt he => rw [he] at cond; exact absurd cond.1 id
  | configure q =>
    exact h.congr (q.grows c) q.quiet.promises (q.cached c.root.1 fun d ds he => by
      have := cond.1; rwa [he] at this)
  | start start => exact ⟨h.promises, h.rooted, h.named, h.kept, h.slot⟩
  | wake hk woken =>
    have := quiet woken.still
    exact ⟨this.promises, this.rooted, this.named, this.kept, this.slot⟩
  | move he _ hm =>
    exact h.move l hm fun busy => by
      have := cond.2; rwa [he.resolve_right busy] at this

/-! ## The one value -/

/-- The promise is fulfilled with `v`, or is about to be. -/
def Finishes (s : Sys) (π : Nat) (v : Val) : Prop :=
  (s.promises.get π).status = .fulfilled v ∨
    ∃ k tail uses, s.stack k = .settle π :: tail ∧ s.ctl k = .ret v uses

/-- `v` is the instance of a promise of the period. -/
def Instance (s₀ s : Sys) (p : NormalizedProvider) (v : Val) : Prop := ∃ π, Mine s₀ s p π ∧ s.Finishes π v

section Instance

variable {s₀ t : Sys} {p : NormalizedProvider} {m : Move} {π π' : Nat} {v v' : Val} {e : Event} {es : List Event}

theorem Finishes.not_rejected (l : Ledger s) (h : s.Finishes π v) (err : Rejection) :
    (s.promises.get π).status ≠ .rejected err := by
  rcases h with status | ⟨k, tail, uses, top, -⟩
  · simp [status]
  · simp [(l.owed k π (by rw [owed, top]; simp [Frame.settles])).2.2]

/-- A promise on top of a returning context is settled by no other context. -/
theorem Finishes.returning (l : Ledger s) (h : s.Finishes π v) {k : Nat} (owes : π ∈ s.owed k) :
    ∃ tail uses, s.stack k = .settle π :: tail ∧ s.ctl k = .ret v uses := by
  obtain ⟨-, context, pending⟩ := l.owed k π owes
  rcases h with status | ⟨j, tail, uses, top, ctl⟩
  · rw [pending] at status; cases status
  · obtain ⟨-, context', -⟩ := l.owed j π (by rw [owed, top]; simp [Frame.settles])
    rw [← context, context']
    exact ⟨tail, uses, top, ctl⟩

theorem Finishes.unique (l : Ledger s) (h : s.Finishes π v) (h' : s.Finishes π v') : v = v' := by
  rcases h with status | ⟨k, tail, uses, top, ctl⟩
  · rcases h' with status' | ⟨k, tail, uses, top, -⟩
    · rw [status] at status'; exact PromiseStatus.fulfilled.inj status'
    · rw [(l.owed k π (by rw [owed, top]; simp [Frame.settles])).2.2] at status; cases status
  · obtain ⟨_, _, -, ctl'⟩ := h'.returning l (k := k) (by rw [owed, top]; simp [Frame.settles])
    rw [ctl] at ctl'
    exact (Ctl.ret.inj ctl').1

theorem Finishes.step (h : s.Finishes π v) (l : Ledger s) (c : Configured s) (made : π < s.promises.size)
    (kind : StepKind w s e s') : s'.Finishes π v := by
  rcases h with status | ⟨k, tail, uses, top, ctl⟩
  · exact .inl ((kind.later l c).fulfilled π v made status)
  · have born : k < s.contexts.size := by
      by_contra unborn
      rw [(l.unborn k (Nat.not_lt.mp unborn)).1] at top
      cases top
    rcases kind.context born (by simp [ctl]) with ⟨hs, hc⟩ | ⟨m, hm, rfl⟩
    · exact .inr ⟨k, tail, uses, hs.trans top, hc.trans ctl⟩
    · left
      obtain rfl := hm.of_settling ctl top
      rw [apply_promises]
      simp [Move.promises]

theorem Mine.step (h : Mine s₀ s p π) (l : Ledger s) (c : Configured s) (kind : StepKind w s e s') :
    Mine s₀ s' p π := by
  obtain ⟨made, home, key, current⟩ := h
  exact ⟨Nat.lt_of_lt_of_le made (kind.later l c).promises, (kind.placed made).1.trans home,
    (kind.placed made).2.trans key, current⟩

theorem Mine.run (h : Mine s₀ t p π) (reachable : Reachable w t) (hr : Sys.run w t es = some s) : Mine s₀ s p π := by
  refine (run_induction (I := fun s => Reachable w s ∧ Mine s₀ s p π) ?_ ⟨reachable, h⟩ hr).2
  rintro s e s' ⟨reachable, mine⟩ hs
  exact ⟨reachable.step hs, mine.step reachable.ledger reachable.configured (step_kind hs)⟩

theorem Instance.run (h : Instance s₀ t p v) (reachable : Reachable w t) (hr : Sys.run w t es = some s) :
    Instance s₀ s p v := by
  obtain ⟨π, mine, finishes⟩ := h
  refine ⟨π, mine.run reachable hr, ?_⟩
  refine (run_induction (I := fun s => Reachable w s ∧ π < s.promises.size ∧ s.Finishes π v) ?_
    ⟨reachable, mine.1, finishes⟩ hr).2.2
  rintro s e s' ⟨reachable, made, finishes⟩ hs
  have kind := step_kind hs
  exact ⟨reachable.step hs, Nat.lt_of_lt_of_le made (kind.later reachable.ledger reachable.configured).promises,
    finishes.step reachable.ledger reachable.configured made kind⟩

theorem InPeriod.holds (h : InPeriod s₀ s p) (l : Ledger s) (mine : Mine s₀ s p π) (finishes : s.Finishes π v) :
    s.cached 0 p.slot = some π := by
  rcases h.kept π mine with held | ⟨err, rejected⟩
  · exact held
  · exact absurd rejected (finishes.not_rejected l err)

theorem InPeriod.instance_unique (h : InPeriod s₀ s p) (l : Ledger s) (i : Instance s₀ s p v)
    (i' : Instance s₀ s p v') : v = v' := by
  obtain ⟨π, mine, finishes⟩ := i
  obtain ⟨π', mine', finishes'⟩ := i'
  cases Option.some.inj ((h.holds l mine finishes).symm.trans (h.holds l mine' finishes'))
  exact finishes.unique l finishes'

/-- Whoever asks for `p` in the period pursues promises of the period. -/
theorem InPeriod.asked (h : InPeriod s₀ t p) (singleton : p.scope = .singleton) (reachable : Reachable w t)
    (asks : Asks t k p) (hm : Moves w t k m) {entered stack : List Frame} (frames : t.stack k = entered ++ stack)
    (only : ∀ f ∈ entered, ∃ t, f = .enter t) :
    ∃ these, (∀ π, these π → Mine s₀ (t.apply k m) p π) ∧ Pursues (t.apply k m) k stack these := by
  have l := reachable.ledger
  rcases asks.pursues singleton hm frames only with fails | ⟨before, owner, key, home, requests, pursues⟩
  · exact ⟨_, fun π none => none.elim, fails⟩
  obtain ⟨rfl, rfl⟩ := h.requested singleton reachable.configured reachable.sound requests
  rcases pursues with ⟨π, hit, pursues⟩ | ⟨⟨x, frames, ctl, rfl, own⟩, pursues⟩
  · obtain ⟨made, home, key⟩ := l.cached 0 p.slot π hit
    refine ⟨_, fun π' e => ?_, pursues⟩
    cases e
    exact ⟨Nat.lt_of_lt_of_le made promises_size_le, (hm.placed made).1.trans home, (hm.placed made).2.trans key,
      h.slot π hit⟩
  · refine ⟨_, fun π' e => ?_, pursues⟩
    cases e
    obtain ⟨-, -, -, -, -, creates, -⟩ := hm.created
    rw [own] at creates
    obtain ⟨home, key⟩ := h.requested singleton reachable.configured reachable.sound creates
    refine ⟨by rw [apply_promises]; exact Nat.lt_succ_self _, ?_, ?_, .inl h.promises⟩
    · rw [apply_promises]; simpa [Move.promises] using home
    · rw [apply_promises]; simpa [Move.promises] using key

/-- A pursuit of the period's promises is answered with an instance of it. -/
theorem Pursues.answered {k : Nat} {stack : List Frame} {these : Nat → Prop} (h : Pursues t k stack these)
    (mine : ∀ π, these π → Mine s₀ t p π) (reachable : Reachable w t) (born : k < t.contexts.size)
    (hr : Sys.run w t es = some s)
    (answered : (t.reply k stack).or (answer w k stack t es) = some (.ok v)) : Instance s₀ s p v := by
  induction es generalizing t with
  | nil =>
    cases hr
    obtain ⟨π, this, status⟩ := h.reply (by simpa [answer] using answered)
    exact ⟨π, mine π this, .inl status⟩
  | cons e rest ih =>
    cases replied : t.reply k stack with
    | some r =>
      rw [replied] at answered
      cases answered
      obtain ⟨π, this, status⟩ := h.reply replied
      exact Instance.run ⟨π, mine π this, .inl status⟩ reachable hr
    | none =>
      obtain ⟨t', ht', hr⟩ := Option.bind_eq_some_iff.mp hr
      have kind := step_kind ht'
      rw [replied, Option.none_or, answer, ht'] at answered
      exact ih (h.step reachable.ledger reachable.configured kind (fun π this => (mine π this).1) born fun _ => replied)
        (fun π this => (mine π this).step reachable.ledger reachable.configured kind) (reachable.step ht')
        (Nat.lt_of_lt_of_le born kind.contexts) hr answered

/-- With nothing to come back to, the answer is the result of the call. -/
theorem Pursues.results {k : Nat} {these : Nat → Prop} (h : Pursues t k [] these)
    (mine : ∀ π, these π → Mine s₀ t p π) (reachable : Reachable w t) (born : k < t.contexts.size)
    (hr : Sys.run w t es = some s) (done : s.ctl k = .done (.ok v)) : Instance s₀ s p v := by
  induction es generalizing t with
  | nil =>
    cases hr
    obtain ⟨π, this, status⟩ := h.result done
    exact ⟨π, mine π this, .inl status⟩
  | cons e rest ih =>
    obtain ⟨t', ht', hr⟩ := Option.bind_eq_some_iff.mp hr
    have kind := step_kind ht'
    exact ih (h.step reachable.ledger reachable.configured kind (fun π this => (mine π this).1) born (absurd rfl))
      (fun π this => (mine π this).step reachable.ledger reachable.configured kind) (reachable.step ht')
      (Nat.lt_of_lt_of_le born kind.contexts) hr

theorem Asks.step (asks : Asks t k p) (hs : Sys.step w t (.context k) = some s) :
    k < t.contexts.size ∧ ∃ m, Moves w t k m ∧ s = t.apply k m := by
  simp only [Sys.step, Option.ite_none_right_eq_some] at hs
  obtain ⟨born, hs⟩ := hs
  unfold advanceContext at hs
  split at hs
  · next start wait stale =>
    have stale : t.ctl k = .stale start wait := stale
    cases asks with
    | token ctl => cases ctl.symm.trans stale
    | contribution ctl => cases ctl.symm.trans stale
  · obtain ⟨m, hm, rfl⟩ := Option.map_eq_some_iff.mp hs
    exact ⟨born, m, .of_move hm, rfl⟩

/-- A factory that completes does so for the promise in the slot. -/
theorem Completes.finishes (done : Completes t p e v) (h : InPeriod s₀ t p) (singleton : p.scope = .singleton)
    (reachable : Reachable w t) (settles : SettlesInPlace p t e) (hs : Sys.step w t e = some s) :
    ∃ π, t.cached 0 p.slot = some π ∧ (∃ k, π ∈ t.owed k ∧ t.ctl k = .running) ∧ Mine s₀ t p π ∧ s.Finishes π v := by
  have l := reachable.ledger
  -- The frame under a factory's is that of its promise.
  have owes {k c : Nat} {rest : List InjectionToken} {values : List Val} {uses : List Nat} {tail : List Frame}
      (ctl : t.ctl k = .running) (top : t.stack k = .deps c p rest values uses :: tail)
      (slot : ∀ π tail', tail = .settle π :: tail' → t.cached 0 p.slot = some π)
      (returned : s.stack k = tail ∧ s.ctl k = .ret v uses) :
      ∃ π, t.cached 0 p.slot = some π ∧ (∃ k, π ∈ t.owed k ∧ t.ctl k = .running) ∧ Mine s₀ t p π ∧ s.Finishes π v := by
    obtain ⟨π, tail', rfl, -, -, -⟩ := reachable.scopesAsserted.frames k c p rest values uses tail
      (top ▸ List.suffix_rfl) (by simp [singleton])
    have held := slot π tail' rfl
    obtain ⟨made, home, key⟩ := l.cached 0 p.slot π held
    exact ⟨π, held, ⟨k, by rw [owed, top]; simp [Frame.settles], ctl⟩, ⟨made, home, key, h.slot π held⟩,
      .inr ⟨k, tail', uses, returned⟩⟩
  have factory {k : Nat} {outcome : FactoryOutcome} {m : Move} (hs : Sys.step w t (.factory k outcome) = some s)
      (hm : factoryMove outcome (t.contexts.get k) = some m) : s.stack k = Move.stack t k m ∧ s.ctl k = Move.ctl t m := by
    simp only [Sys.step, factoryEvent, hm, Option.map_some, Option.ite_none_right_eq_some, Option.some.injEq] at hs
    rw [← hs.2, apply_stack, apply_ctl, if_pos rfl, if_pos rfl]
    exact ⟨rfl, rfl⟩
  cases done with
  | @made k c rest values uses tail disposable ctl top =>
    refine owes ctl top (fun π tail' e => ?_) ?_
    · subst e
      simpa [SettlesInPlace, top] using settles
    · have made := factory hs (m := .allocate values disposable uses) (by
        rw [Sys.ctl] at ctl; rw [Sys.stack] at top; simp only [factoryMove, ctl, top])
      rwa [Move.stack, top] at made
  | @shared k c rest values uses tail v ctl top =>
    refine owes ctl top (fun π tail' e => ?_) ?_
    · subst e
      simpa [SettlesInPlace, top] using settles
    · have made := factory hs (m := .pop (.ret v uses)) (by
        rw [Sys.ctl] at ctl; rw [Sys.stack] at top; simp only [factoryMove, ctl, top])
      rwa [Move.stack, top] at made

end Instance

/-! ## The period as a whole -/

theorem Throughout.split {C : Sys → Event → Prop} {before rest : List Event} {s t : Sys}
    (h : Throughout w C s (before ++ rest)) (hr : run w s before = some t) :
    Throughout w C s before ∧ Throughout w C t rest := by
  induction before generalizing s with
  | nil => cases hr; exact ⟨trivial, h⟩
  | cons e before ih =>
    obtain ⟨s₁, h₁, hr⟩ := Option.bind_eq_some_iff.mp hr
    refine ⟨⟨h.1, fun s' hs => ?_⟩, (ih (h.2 s₁ h₁) hr).2⟩
    cases h₁.symm.trans hs
    exact (ih (h.2 s₁ h₁) hr).1

theorem Passes.ends {s₀ t : Sys} {es rest : List Event} (h : Passes w s₀ es t rest) (hr : run w s₀ es = some s) :
    run w t rest = some s := by
  obtain ⟨before, rfl, ht⟩ := h
  rwa [run_append, ht] at hr

/-- The invariant at a state that a run passes, and what is asked of the rest. -/
theorem InPeriod.passes {s₀ t u : Sys} {es rest : List Event} {p : NormalizedProvider} (h : InPeriod s₀ t p)
    (reachable : Reachable w t) (conds : Throughout w (fun s e => Unaffected w p s e ∧ SettlesInPlace p s e) t es)
    (hp : Passes w t es u rest) : Reachable w u ∧ InPeriod s₀ u p ∧
      Throughout w (fun s e => Unaffected w p s e ∧ SettlesInPlace p s e) u rest := by
  obtain ⟨before, rfl, hr⟩ := hp
  obtain ⟨first, later⟩ := conds.split hr
  refine ⟨reachable.run hr, ?_, later⟩
  exact reachable.throughout (fun s e s' reach cond (inv : InPeriod s₀ s p) hs => inv.step reach cond hs) h first hr

def factoryA (f : Nat) : Provider := .factoryProvider (.str "A") f [] none none false

def providerA (ref : Nat) : NormalizedProvider := ⟨ref, .str "A", .singleton, .useFactory ref, [], false⟩

/-- Root and request scope share the instance a first factory call makes. -/
def sharedRun : List Event :=
  [Event.createRequestScope 0, .resolve 0 (.str "A"), .resolve 1 (.str "A")] ++ List.replicate 3 (Event.context 0) ++
  List.replicate 2 (Event.context 1) ++ [Event.factory 0 (.fresh true)] ++ List.replicate 3 (Event.context 0) ++
  List.replicate 2 (Event.context 1)

/-- The root resolves `A` and overrides it while the factory runs; a scope
resolves the replacement, the first factory throws, and the scope resolves
again. -/
def staleRejectionRun : List Event × List Event :=
  ([Event.register 0 [factoryA 0], .resolve 0 (.str "A")] ++ List.replicate 3 (Event.context 0) ++
    [Event.override 0 [factoryA 1], .createRequestScope 0],
  [Event.resolve 1 (.str "A")] ++ List.replicate 3 (Event.context 1) ++ [Event.factory 1 (.fresh true)] ++
    List.replicate 3 (Event.context 1) ++ [Event.factory 0 (.throws 7), .context 0, .resolve 1 (.str "A")] ++
    List.replicate 3 (Event.context 2) ++ [Event.factory 2 (.fresh true)] ++ List.replicate 3 (Event.context 2))

end Sys

end Fluo.Di
