import Fluo.Di.ScopeSafety
import Fluo.Di.WaitFor

/-!
# Calls that are under way get on

Waiting never goes in a circle, also not through the disposal of an instance that is
still being made. So each chain of waiting contexts ends with one that can go on by
itself, or that waits for user code: a factory, or disposals that go on or are in an
`onDestroy`.
-/

namespace Fluo.Di

open Relation Search

namespace Sys

variable {w : World} {s s' : Sys} {k : Nat}

/-! ## Shapes -/

/-- What a context works on is on top of its stack, and nothing is left when it is done. -/
def Shaped : Ctl → List Frame → Prop
  | .contributions, stack => ∃ c rest values uses tail, stack = .contributions c rest values uses :: tail
  | .deps, stack | .running, stack => ∃ c p rest values uses tail, stack = .deps c p rest values uses :: tail
  | .done _, stack | .stale _ _, stack => stack = []
  | _, _ => True

theorem instantiate_shaped (s : Sys) (c : Nat) (p : NormalizedProvider) (l : List Frame) :
    Shaped (s.instantiate w c p).2 ((s.instantiate w c p).1 ++ l) := by
  unfold instantiate
  split
  · trivial
  · split
    · trivial
    · trivial
    · exact ⟨_, _, _, _, _, _, rfl⟩
    · exact ⟨_, _, _, _, _, _, rfl⟩

theorem Moves.shaped {m : Move} (h : Moves w s k m) : Shaped (Move.ctl s m) (Move.stack s k m) := by
  cases h with
  | multi => exact ⟨_, _, _, _, _, rfl⟩
  | transientToken =>
    simp only [Move.ctl, Move.stack, List.append_assoc]
    exact instantiate_shaped s _ _ _
  | transientContribution => exact instantiate_shaped s _ _ _
  | create =>
    simp only [Move.ctl, Move.stack, List.append_assoc]
    exact instantiate_shaped s _ _ _
  | @cached before _ _ π _ p =>
    have links := linkPendingResolution_links s k π (activeTokens (before ++ s.stack k)) p.provide
    simp only [Move.ctl]
    generalize s.linkPendingResolution k π (activeTokens (before ++ s.stack k)) p.provide = ctl at links
    cases links <;> trivial
  | runFactory _ top => exact ⟨_, _, _, _, _, _, top⟩
  | skipDependency | supplied => exact ⟨_, _, _, _, _, _, rfl⟩
  | contributed => exact ⟨_, _, _, _, _, rfl⟩
  | returned _ top | failed _ top => exact top
  | _ => trivial

theorem beginResolution_shaped (start : Start) (s : Sys) :
    Shaped (beginResolution w start s).2 (beginResolution w start s).1 := by
  cases start with
  | resolve c t => trivial
  | contribution c t index =>
    simp only [beginResolution]
    split
    · trivial
    · split <;> trivial

theorem StepKind.shaped {e : Event} (hs : StepKind w s e s') (h : ∀ k, Shaped (s.ctl k) (s.stack k)) (k : Nat) :
    Shaped (s'.ctl k) (s'.stack k) := by
  have quiet {t : Sys} (q : Quiet s t) : Shaped (t.ctl k) (t.stack k) := by
    rw [Sys.ctl, Sys.stack, q.contexts]
    exact h k
  cases hs with
  | still q => exact quiet q.toQuiet
  | attempt _ q => exact quiet (advanceAttempt_fixed q).toQuiet
  | configure q => exact quiet q.quiet
  | start start _ =>
    by_cases new : k = s.contexts.size
    · simp only [Sys.ctl, Sys.stack, startContext, Heap.get_push, if_pos new]
      split <;> trivial
    · simp only [Sys.ctl, Sys.stack, startContext, Heap.get_push, if_neg new]
      exact h k
  | @wake j t stack ctl _ woken =>
    by_cases same : k = j
    · simp only [Sys.ctl, Sys.stack, Sys.setContext, Heap.get_set, if_pos same]
      cases woken with
      | round | errors => trivial
      | begin => exact beginResolution_shaped _ _
    · simp only [Sys.ctl, Sys.stack, Sys.setContext, Heap.get_set, if_neg same]
      exact quiet woken.still.toQuiet
  | @move j m _ _ hm =>
    rw [apply_ctl, apply_stack]
    by_cases same : k = j
    · rw [if_pos same, if_pos same]
      exact hm.shaped
    · rw [if_neg same, if_neg same]
      exact h k

theorem Reachable.unscheduled (h : Reachable w s) : s.Unscheduled := by
  refine h.induction (fun _ _ => rfl) fun t e t' _ unscheduled hs => ?_
  cases step_kind hs with
  | still q => exact q.unscheduled unscheduled
  | attempt _ q => exact (advanceAttempt_fixed q).unscheduled unscheduled
  | configure q => exact q.quiet.unscheduled unscheduled
  | start => exact unscheduled
  | wake _ woken => exact woken.still.unscheduled unscheduled
  | @move j m =>
    rw [Unscheduled, apply_tasks]
    exact unscheduled

theorem Reachable.unmade (h : Reachable w s) : ∀ π, s.promises.size ≤ π → (s.promises.get π).status ≠ .pending := by
  refine h.induction (I := fun t => ∀ π, t.promises.size ≤ π → (t.promises.get π).status ≠ .pending)
    (fun _ _ status => by cases status) fun t e t' _ unmade hs π outside => ?_
  have quiet {u : Sys} (q : u.promises = t.promises) (outside : u.promises.size ≤ π) : (u.promises.get π).status ≠ .pending := by
    rw [q] at outside ⊢
    exact unmade π outside
  cases step_kind hs with
  | still q => exact quiet q.promises outside
  | attempt _ q => exact quiet (advanceAttempt_fixed q).promises outside
  | configure q => exact quiet q.quiet.promises outside
  | start => exact quiet rfl outside
  | wake _ woken => exact quiet woken.still.promises outside
  | @move j m =>
    rw [apply_promises] at outside ⊢
    cases m with
    | create m before frames ctl =>
      have outside : t.promises.size < π := outside
      simp only [Move.promises, Heap.get_push, if_neg (Nat.ne_of_gt outside)]
      exact unmade π (Nat.le_of_lt outside)
    | goto | push | replace | pop | allocate => exact unmade π outside
    | fulfil promise v uses =>
      simp only [Move.promises, Heap.get_modify]
      split
      · simp
      · exact unmade π outside
    | reject promise err =>
      simp only [Move.promises, Heap.get_modify]
      split
      · simp
      · exact unmade π outside

theorem Reachable.shaped (h : Reachable w s) : ∀ k, Shaped (s.ctl k) (s.stack k) :=
  h.induction (fun _ => rfl) fun _ _ _ _ shaped hs => (step_kind hs).shaped shaped

/-! ## Where waiting ends -/

/-- A stale task of the round that a call waits for is itself waiting for a pending
promise that another context settles. -/
def StaleFor (s : Sys) (a b : Nat) : Prop :=
  ∃ start wait τ, s.ctl a = .stale start wait ∧ τ ∈ wait.round ∧ (s.tasks.get τ).stage = .waiting ∧
    (s.promises.get (s.tasks.get τ).promise).status = .pending ∧ (s.promises.get (s.tasks.get τ).promise).context = b

/-- A context waits for another one, directly or through a stale task. -/
def Waits (s : Sys) (a b : Nat) : Prop := s.WaitsFor a b ∨ s.StaleFor a b

/-- A stale task goes on by itself, or when the `onDestroy` that it called has returned
or thrown. -/
def TaskGoes (w : World) (s : Sys) (τ : Nat) : Prop :=
  (∃ t, step w s (.task τ) = some t) ∨ ∀ thrown, ∃ t, step w s (.taskHook τ thrown) = some t

/-- The context goes on by itself, or when a factory that it called has returned, or
all stale tasks that it still waits for go on. -/
def Goes (w : World) (s : Sys) (k : Nat) : Prop :=
  (∃ t, step w s (.context k) = some t) ∨
  (s.ctl k = .running ∧ ∀ outcome, ∃ t, step w s (.factory k outcome) = some t) ∨
  ∃ start wait, s.ctl k = .stale start wait ∧ (∃ τ ∈ wait.round, s.isSettled τ = false) ∧
    ∀ τ ∈ wait.round, s.isSettled τ = false → TaskGoes w s τ

theorem goes_of_move (inside : k < s.contexts.size) (asleep : ∀ start wait, s.ctl k ≠ .stale start wait)
    (moves : (s.move w k).isSome = true) : Goes w s k := by
  obtain ⟨m, is⟩ := Option.isSome_iff_exists.mp moves
  refine .inl ⟨s.apply k m, ?_⟩
  rw [Sys.step, if_pos inside, advanceContext]
  split
  · next start wait at_ => exact absurd at_ (asleep start wait)
  · rw [is, Option.map_some]

theorem goes_of_running (inside : k < s.contexts.size) (at_ : s.ctl k = .running) (shaped : Shaped .running (s.stack k)) :
    Goes w s k := by
  obtain ⟨c, p, rest, values, uses, tail, top⟩ := shaped
  refine .inr (.inl ⟨at_, fun outcome => ?_⟩)
  rw [Sys.step, if_pos inside, factoryEvent, factoryMove, show (s.contexts.get k).ctl = _ from at_,
    show (s.contexts.get k).stack = _ from top]
  cases outcome <;> exact ⟨_, rfl⟩

/-- A stale task that is not settled and does not wait for a pending promise. -/
theorem taskGoes (unscheduled : s.Unscheduled) {τ : Nat} (unsettled : s.isSettled τ = false)
    (made : (s.tasks.get τ).stage = .waiting → (s.promises.get (s.tasks.get τ).promise).status ≠ .pending) :
    TaskGoes w s τ := by
  have open_ : (s.tasks.get τ).stage ≠ .settled := of_decide_eq_false unsettled
  have inside : τ < s.tasks.size := by
    by_contra outside
    exact open_ (unscheduled τ (Nat.not_lt.mp outside))
  simp only [TaskGoes, Sys.step, if_pos inside, advanceTask, taskHook]
  cases stage : (s.tasks.get τ).stage with
  | waiting =>
    refine .inl ?_
    dsimp only
    cases status : (s.promises.get (s.tasks.get τ).promise).status with
    | pending => exact absurd status (made stage)
    | rejected e => exact ⟨_, rfl⟩
    | fulfilled v =>
      dsimp only
      split
      · exact ⟨_, rfl⟩
      · exact ⟨_, rfl⟩
  | destroying v =>
    refine .inr fun thrown => ?_
    cases thrown with
    | none => exact ⟨_, rfl⟩
    | some n => exact ⟨_, rfl⟩
  | finishing => exact .inl ⟨_, rfl⟩
  | settled => exact absurd stage open_

theorem goes_of_stale (unscheduled : s.Unscheduled) {start : Start} {wait : StaleWait} (inside : k < s.contexts.size)
    (at_ : s.ctl k = .stale start wait) : Goes w s k ∨ ∃ j, s.StaleFor k j := by
  by_cases settled : wait.round.all s.isSettled = true
  · refine .inl (.inl ?_)
    rw [Sys.step, if_pos inside, advanceContext, show (s.contexts.get k).ctl = _ from at_]
    dsimp only
    split
    · exact ⟨_, rfl⟩
    · rw [nextStaleRound, if_pos settled]
      exact ⟨_, rfl⟩
  · by_cases waits : ∃ j, s.StaleFor k j
    · exact .inr waits
    · refine .inl (.inr (.inr ⟨start, wait, at_, by simpa using settled, fun τ mem unsettled => ?_⟩))
      exact taskGoes unscheduled unsettled fun waiting pending => waits ⟨_, start, wait, τ, at_, mem, waiting, pending, rfl⟩

/-- A context that owes a pending promise has a frame for it. -/
theorem Reachable.owing (h : Reachable w s) {π : Nat} (pending : (s.promises.get π).status = .pending) :
    s.stack (s.promises.get π).context ≠ [] := by
  intro empty
  have known : π < s.promises.size := by
    by_contra outside
    exact h.unmade π (Nat.not_lt.mp outside) pending
  have owes := h.ledger.pending π known pending
  rw [owed, empty] at owes
  cases owes

theorem Reachable.awaited (h : Reachable w s) {i j : Nat} (waits : s.Waits i j) : s.stack j ≠ [] := by
  rcases waits with ⟨π, link, -, pending, rfl⟩ | ⟨start, wait, τ, -, -, -, pending, rfl⟩
  · exact h.owing pending
  · exact h.owing pending

/-- From a context with frames on, waiting goes through cached promises only. -/
theorem Reachable.waits_cached (h : Reachable w s) {i j : Nat} (waits : s.Waits i j) (frames : s.stack i ≠ []) :
    s.WaitsFor i j := by
  rcases waits with cached | ⟨start, wait, τ, at_, -⟩
  · exact cached
  · have shaped := h.shaped i
    rw [at_] at shaped
    exact absurd shaped frames

theorem Reachable.no_circle (h : Reachable w s) (k : Nat) : ¬ TransGen s.Waits k k := by
  intro circle
  have cached {i j : Nat} (path : TransGen s.Waits i j) (frames : s.stack i ≠ []) : TransGen s.WaitsFor i j := by
    induction path using TransGen.head_induction_on with
    | single waits => exact .single (h.waits_cached waits frames)
    | head first _ ih => exact .head (h.waits_cached first frames) (ih (h.awaited first))
  obtain ⟨i, -, last⟩ := TransGen.tail'_iff.mp circle
  exact h.waiting.no_cycle h.ledger h.sound k (cached circle (h.awaited last))

/-- A context that is not done goes on or waits for another that is not done. -/
theorem Reachable.goes (h : Reachable w s) (undone : ∀ result, s.ctl k ≠ .done result) :
    Goes w s k ∨ ∃ j, s.Waits k j ∧ ∀ result, s.ctl j ≠ .done result := by
  have inside : k < s.contexts.size := by
    by_contra outside
    exact undone _ (h.ledger.unborn k (Nat.not_lt.mp outside)).2
  have shaped := h.shaped k
  -- a context that is done has no frames, so nobody waits for it
  have awaited (waits : ∃ j, s.Waits k j) : ∃ j, s.Waits k j ∧ ∀ result, s.ctl j ≠ .done result := by
    obtain ⟨j, waits⟩ := waits
    refine ⟨j, waits, fun result over_ => ?_⟩
    have empty := h.shaped j
    rw [over_] at empty
    exact h.awaited waits empty
  cases at_ : s.ctl k with
  | done result => exact absurd at_ (undone result)
  | eval | contribution | ret | fail =>
    refine .inl (goes_of_move inside (by simp [at_]) ?_)
    rw [move, show (s.contexts.get k).ctl = _ from at_]
    rfl
  | contributions =>
    rw [at_] at shaped
    obtain ⟨c, rest, values, uses, tail, top⟩ := shaped
    refine .inl (goes_of_move inside (by simp [at_]) ?_)
    rw [move, show (s.contexts.get k).ctl = _ from at_, show (s.contexts.get k).stack = _ from top]
    rfl
  | deps =>
    rw [at_] at shaped
    obtain ⟨c, p, rest, values, uses, tail, top⟩ := shaped
    refine .inl (goes_of_move inside (by simp [at_]) ?_)
    rw [move, show (s.contexts.get k).ctl = _ from at_, show (s.contexts.get k).stack = _ from top]
    rfl
  | running => exact .inl (goes_of_running inside at_ (at_ ▸ shaped))
  | stale start wait => exact (goes_of_stale h.unscheduled inside at_).imp_right fun waits => awaited (waits.imp fun _ => .inr)
  | await π link =>
    cases status : (s.promises.get π).status with
    | fulfilled | rejected =>
      refine .inl (goes_of_move inside (by simp [at_]) ?_)
      rw [move, show (s.contexts.get k).ctl = _ from at_]
      simp only [status, Option.isSome_some]
    | pending =>
      exact .inr (awaited ⟨_, .inl ⟨π, link, at_, status, rfl⟩⟩)

/-- No contexts wait for each other in a circle, and from a call that is not done the
waiting leads to a context that goes on, or that waits for a factory or for stale tasks
that go on themselves. -/
theorem Reachable.no_deadlock (h : Reachable w s) :
    (∀ k, ¬ TransGen s.Waits k k) ∧ ∀ k, (∀ result, s.ctl k ≠ .done result) →
      ∃ j, ReflTransGen s.Waits k j ∧ Goes w s j := by
  refine ⟨h.no_circle, fun k undone => ?_⟩
  classical
  let below := (List.range s.contexts.size).filter fun j => ReflTransGen s.Waits k j ∧ ∀ result, s.ctl j ≠ .done result
  have mem {j : Nat} (path : ReflTransGen s.Waits k j) (undone : ∀ result, s.ctl j ≠ .done result) : j ∈ below := by
    refine List.mem_filter.mpr ⟨List.mem_range.mpr ?_, decide_eq_true ⟨path, undone⟩⟩
    by_contra outside
    exact undone _ (h.ledger.unborn j (Nat.not_lt.mp outside)).2
  obtain ⟨j, inside, last⟩ := exists_sink h.no_circle (List.ne_nil_of_mem (mem .refl undone))
  obtain ⟨path, undone⟩ := of_decide_eq_true (List.mem_filter.mp inside).2
  rcases h.goes undone with goes | ⟨i, waits, undone⟩
  · exact ⟨j, path, goes⟩
  · exact absurd waits (last i (mem (path.tail waits) undone))

/-- Two calls for tokens that need each other: the second waits for the first. -/
def crossedRun : List Event :=
  [Event.register 0 [factory "A" 0 [.token (.str "B")] none false, factory "B" 1 [.token (.str "A")] none false],
    .resolve 0 (.str "A"), .resolve 0 (.str "B")] ++ List.replicate 3 (Event.context 0) ++
  List.replicate 4 (Event.context 1)

theorem no_deadlock_crossed : ∃ s, run default initial crossedRun = some s ∧ s.ctl 1 = .await 0 (some 0) ∧
    ∃ j, ReflTransGen s.Waits 1 j ∧ Goes default s j := by
  obtain ⟨s, hs, waits⟩ := run_eval (w := default) (s := initial) crossedRun (fun s => s.ctl 1 = .await 0 (some 0))
    (by decide +kernel)
  exact ⟨s, hs, waits, (Reachable.no_deadlock ⟨_, hs⟩).2 1 (by simp [waits])⟩

end Sys

end Fluo.Di
