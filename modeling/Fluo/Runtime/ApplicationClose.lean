import Mathlib.Data.List.InsertIdx
import Mathlib.Data.List.Pairwise
import Mathlib.Algebra.BigOperators.Group.List.Basic
import Fluo.Runtime.Application

/-!
# Attempts to close are complete and converge

What the attempts to close an application have done after any run: which phases
they attempted, which callbacks they called, and how many of them can fail.
-/

namespace Fluo.Runtime.Application

theorem thrownBy_isEmpty (errors : List CloseError) : (thrownBy errors).isEmpty = errors.isEmpty := by
  cases errors <;> rfl

theorem thrownBy_eq_nil {errors : List CloseError} : thrownBy errors = [] ↔ errors = [] := by
  cases errors <;> simp [thrownBy]

/-! ## How an attempt goes on -/

/-- Where `closeRuntimeResources()` goes on from behind the first `k` phases:
completed phases are skipped, phases without callbacks complete at once. -/
inductive Proceeds (instances : List LifecycleInstance) : Nat → State → Closing → State → Prop
  | skip {k : Nat} {phase : RuntimeShutdownPhase} {s t : State} {c : Closing} (h : phases[k]? = some phase)
      (done : phase ∈ s.runtimeShutdownState) (rest : Proceeds instances (k + 1) s c t) : Proceeds instances k s c t
  | readiness {s : State} {c : Closing} (due : .readiness ∉ s.runtimeShutdownState) :
      Proceeds instances 0 s c (s.await c .readiness)
  | cleanup {s : State} {c : Closing} {cleanup : Nat} (due : .runtimeCleanup ∉ s.runtimeShutdownState)
      (first : s.runtimeCleanup[0]? = some cleanup) :
      Proceeds instances 1 s c (s.await (c.call cleanup) (.cleanup 1 []))
  | noCleanup {s t : State} {c : Closing} (due : .runtimeCleanup ∉ s.runtimeShutdownState)
      (none : s.runtimeCleanup = [])
      (rest : Proceeds instances 2 (s.complete .runtimeCleanup [])
        ((c.loopEnds s.runtimeCleanup).attempt .runtimeCleanup []) t) : Proceeds instances 1 s c t
  | hook {s : State} {c : Closing} {call : HookCall} {rest : List HookCall} (due : .hooks ∉ s.runtimeShutdownState)
      (calls : hookCalls instances = call :: rest) : Proceeds instances 2 s c (s.await c (.hook rest []))
  | noHook {s t : State} {c : Closing} (due : .hooks ∉ s.runtimeShutdownState) (none : hookCalls instances = [])
      (rest : Proceeds instances 3 (s.complete .hooks []) (c.attempt .hooks []) t) : Proceeds instances 2 s c t
  | adapter {s : State} {c : Closing} (due : .adapter ∉ s.runtimeShutdownState) :
      Proceeds instances 3 s c (s.await c .adapter)
  | container {s : State} {c : Closing} (due : .container ∉ s.runtimeShutdownState) :
      Proceeds instances 4 s c (s.await c .container)
  | finish {s : State} {c : Closing} : Proceeds instances 5 s c (s.finish c)

section

variable (instances : List LifecycleInstance) (s : State) (c : Closing)

theorem disposeContainer_proceeds : Proceeds instances 4 s c (s.disposeContainer c) := by
  unfold State.disposeContainer
  split
  next h => exact .skip rfl h .finish
  next h => exact .container h

theorem closeAdapter_proceeds : Proceeds instances 3 s c (s.closeAdapter c) := by
  unfold State.closeAdapter
  split
  next h => exact .skip rfl h (disposeContainer_proceeds instances s c)
  next h => exact .adapter h

theorem runShutdownHooks_proceeds : Proceeds instances 2 s c (s.runShutdownHooks instances c) := by
  unfold State.runShutdownHooks
  split
  next h => exact .skip rfl h (closeAdapter_proceeds instances s c)
  next h =>
    cases calls : hookCalls instances with
    | nil => exact .noHook h calls (closeAdapter_proceeds ..)
    | cons call rest => exact .hook h calls

theorem runCleanupCallbacks_proceeds : Proceeds instances 1 s c (s.runCleanupCallbacks instances c) := by
  unfold State.runCleanupCallbacks
  split
  next h => exact .skip rfl h (runShutdownHooks_proceeds instances s c)
  next h =>
    unfold State.cleanupNext
    split
    next first => exact .cleanup h first
    next none =>
      refine .noCleanup h ?_ (runShutdownHooks_proceeds ..)
      exact List.eq_nil_of_length_eq_zero (by simpa using none)

theorem closeRuntimeResources_proceeds : Proceeds instances 0 s c (s.closeRuntimeResources instances c) := by
  unfold State.closeRuntimeResources
  split
  next h => exact .skip rfl h (runCleanupCallbacks_proceeds instances s c)
  next h => exact .readiness h

end

/-! ## What holds of attempts -/

/-- One of the attempts has completed the phase. -/
def CompletedBy (attempts : List (Attempt × Option CloseError)) (phase : RuntimeShutdownPhase) : Prop :=
  ∃ a ∈ attempts, (phase, true) ∈ a.1.attempted

instance (attempts : List (Attempt × Option CloseError)) (phase : RuntimeShutdownPhase) :
    Decidable (CompletedBy attempts phase) :=
  inferInstanceAs (Decidable (∃ a ∈ attempts, (phase, true) ∈ a.1.attempted))

/-- Each phase that no earlier attempt has completed was attempted, in order; a cleanup
phase that was not disturbed has called all registered callbacks in order. -/
structure Attempt.Sound (earlier : List (Attempt × Option CloseError)) (a : Attempt) : Prop where
  order : a.attempted.map Prod.fst = phases.filter (¬ CompletedBy earlier ·) ∨
    ¬ CompletedBy earlier .readiness ∧ a.attempted = [(.readiness, false)]
  cleanups : .runtimeCleanup ∈ a.attempted.map Prod.fst → a.displaced = false → a.called = a.registered

/-- Every attempt is sound with regard to those that ended before it. -/
def AllSound : List (Attempt × Option CloseError) → Prop
  | [] => True
  | a :: earlier => a.1.Sound earlier ∧ AllSound earlier

/-- Attempts never repeat a phase that another one has completed. -/
def Apart (later earlier : Attempt × Option CloseError) : Prop :=
  ∀ phase, (phase, true) ∈ earlier.1.attempted → phase ∉ later.1.attempted.map Prod.fst

structure Microservice.Sound (m : Microservice) : Prop where
  closed : m.closed = true ↔ m.closingPromise = .fulfilled

/-- Everything there is to tear down has been torn down: each phase by an attempt that
completed it, and each connected microservice is closed. -/
structure State.Down (s : State) : Prop where
  phases : ∀ phase, CompletedBy s.attempts phase
  microservices : ∀ m ∈ s.connectedMicroservices, m.closed = true

/-- The application holds that everything has been torn down. -/
def State.Finished (s : State) : Prop :=
  (∀ phase ∈ phases, phase ∈ s.runtimeShutdownState) ∧ s.connectedMicroservicesClosed = true

structure Standing (s : State) : Prop where
  attempts : AllSound s.attempts
  apart : s.attempts.Pairwise Apart
  completed : ∀ phase, CompletedBy s.attempts phase → phase ∈ s.runtimeShutdownState
  microservices : ∀ m ∈ s.connectedMicroservices, m.Sound
  microservicesClosed : s.connectedMicroservicesClosed = true →
    s.closeStarted = true ∧ ∀ m ∈ s.connectedMicroservices, m.closed = true
  closed : s.closed = true → s.Finished
  fulfilled : ∀ answer ∈ s.settled, answer.2 = none → s.closed = true ∧ s.signalCleanupErrors = []

/-- An attempt that has come through the first `k` phases. -/
structure Through (s : State) (c : Closing) (k : Nat) : Prop where
  closed : s.closed = false
  started : s.closeStarted = true
  attempted : c.record.attempted.map Prod.fst = (phases.take k).filter (· ∉ c.record.before)
  completed : ∀ phase, phase ∈ s.runtimeShutdownState ↔
    phase ∈ c.record.before ∨ (phase, true) ∈ c.record.attempted
  failed : c.resourceErrors = [] → ∀ phase, (phase, false) ∉ c.record.attempted
  cleanups : .runtimeCleanup ∈ c.record.attempted.map Prod.fst → c.record.displaced = false →
    c.record.called = c.record.registered
  earlier : ∀ phase, phase ∈ c.record.before ↔ CompletedBy s.attempts phase

/-- The same for an attempt that has also closed the microservices or failed to. -/
structure Resources (s : State) (c : Closing) (k : Nat) : Prop extends Through s c k where
  microservices : c.errors = [] → s.connectedMicroservicesClosed = true

/-- An attempt that has not come to the runtime resources. -/
structure Fresh (s : State) (c : Closing) : Prop extends Through s c 0 where
  called : c.record.called = []
  errors : c.errors = []

/-- The loop over the microservices waits for the one at `index`. -/
structure ClosingMicroservice (s : State) (index : Nat) (rest : List Nat) (errors : List CloseError) : Prop where
  closing : ∃ m, s.connectedMicroservices[index]? = some m ∧ m.closingPromise ≠ .undefined
  bound : ∀ i ∈ rest, i < s.connectedMicroservices.length
  others : errors = [] → ∀ i m, s.connectedMicroservices[i]? = some m → i ≠ index → i ∉ rest → m.closed = true

def InProgress (s : State) (c : Closing) : CloseAwait → Prop
  | .listen | .unregisterShutdownSignals => Fresh s c
  | .microservice index rest errors => Fresh s c ∧ ClosingMicroservice s index rest errors
  | .readiness => Resources s c 0 ∧ c.record.called = [] ∧ .readiness ∉ s.runtimeShutdownState
  | .cleanup next _ =>
    Resources s c 1 ∧ .runtimeCleanup ∉ s.runtimeShutdownState ∧
      (c.record.displaced = false → next ≤ s.runtimeCleanup.length ∧ c.record.called = s.runtimeCleanup.take next)
  | .hook _ _ => Resources s c 2 ∧ .hooks ∉ s.runtimeShutdownState
  | .adapter => Resources s c 3 ∧ .adapter ∉ s.runtimeShutdownState
  | .container => Resources s c 4 ∧ .container ∉ s.runtimeShutdownState

structure Inv (s : State) : Prop extends Standing s where
  attempt : ∀ c await, s.closingPromise = some (.pending c await) → InProgress s c await
  waiting : (∀ c await, s.closingPromise ≠ some (.pending c await)) → s.waiting = []
  promise : s.closingPromise = some .fulfilled → s.closed = true
  idle : (∀ c await, s.closingPromise ≠ some (.pending c await)) →
    ∀ phase ∈ s.runtimeShutdownState, CompletedBy s.attempts phase

theorem Inv.initial (cleanups : List Nat) : Inv (.bootstrapped cleanups) where
  attempts := trivial
  apart := .nil
  completed := by simp [State.bootstrapped, CompletedBy]
  microservices := by simp [State.bootstrapped]
  microservicesClosed := by simp [State.bootstrapped]
  closed := by simp [State.bootstrapped]
  fulfilled := by simp [State.bootstrapped]
  attempt := by simp [State.bootstrapped]
  waiting _ := rfl
  promise := by simp [State.bootstrapped]
  idle := by simp [State.bootstrapped]

/-- What an attempt has done does not depend on the rest of the state. -/
theorem InProgress.frame {s : State} {c : Closing} {a : CloseAwait} (h : InProgress s c a)
    (promise : Option ClosePromise) (startup : Startup) (signals : Bool) (signalErrors : List CloseError)
    (waiting : List Caller) (settled : List (Caller × Option CloseError)) :
    InProgress { s with
      closingPromise := promise, startup := startup, unregisterShutdownSignals := signals
      signalCleanupErrors := signalErrors, waiting := waiting, settled := settled } c a := by
  cases a with
  | listen | unregisterShutdownSignals =>
    exact ⟨⟨h.closed, h.started, h.attempted, h.completed, h.failed, h.cleanups, h.earlier⟩, h.called, h.errors⟩
  | microservice index rest errors =>
    obtain ⟨h, loop⟩ := h
    exact ⟨⟨⟨h.closed, h.started, h.attempted, h.completed, h.failed, h.cleanups, h.earlier⟩, h.called, h.errors⟩,
      loop.closing, loop.bound, loop.others⟩
  | readiness | cleanup | hook | adapter | container =>
    obtain ⟨h, rest⟩ := h
    exact ⟨⟨⟨h.closed, h.started, h.attempted, h.completed, h.failed, h.cleanups, h.earlier⟩,
      h.microservices⟩, rest⟩

theorem Standing.await {s : State} {c : Closing} {a : CloseAwait} (standing : Standing s)
    (h : InProgress s c a) : Inv (s.await c a) where
  toStanding := { standing with }
  attempt c' a' promise := by
    obtain ⟨rfl, rfl⟩ : c = c' ∧ a = a' := by simpa [State.await] using promise
    exact h.frame ..
  waiting idle := absurd rfl (idle c a)
  promise := by simp [State.await]
  idle idle := absurd rfl (idle c a)

/-! ## Phases -/

theorem phase_not_before {k : Nat} {phase : RuntimeShutdownPhase} (h : phases[k]? = some phase) :
    phase ∉ phases.take k := by
  have nodup : (phases.take (k + 1)).Nodup := (List.take_sublist _ _).nodup (by decide)
  rw [List.take_add_one, h, Option.toList_some, List.nodup_append] at nodup
  exact fun before => nodup.2.2 phase before phase (by simp) rfl

theorem phase_mem (phase : RuntimeShutdownPhase) : phase ∈ phases := by cases phase <;> decide

section

variable {s : State} {c : Closing} {k : Nat} {phase : RuntimeShutdownPhase}

theorem Through.attempted_of (h : Through s c k) (done : (phase, true) ∈ c.record.attempted) :
    phase ∈ phases.take k ∧ phase ∉ c.record.before := by
  have mem : phase ∈ c.record.attempted.map Prod.fst := List.mem_map_of_mem done
  simpa [h.attempted] using mem

theorem Through.before_of_done (h : Through s c k) (hk : phases[k]? = some phase)
    (done : phase ∈ s.runtimeShutdownState) : phase ∈ c.record.before := by
  rcases (h.completed phase).mp done with before | attempted
  · exact before
  · exact absurd (h.attempted_of attempted).1 (phase_not_before hk)

theorem Through.skip (h : Through s c k) (hk : phases[k]? = some phase) (done : phase ∈ s.runtimeShutdownState) :
    Through s c (k + 1) := by
  have before := h.before_of_done hk done
  refine { h with attempted := ?_ }
  rw [h.attempted, List.take_add_one, hk]
  simp [before]

theorem Resources.skip (h : Resources s c k) (hk : phases[k]? = some phase) (done : phase ∈ s.runtimeShutdownState) :
    Resources s c (k + 1) :=
  ⟨h.toThrough.skip hk done, h.microservices⟩

theorem complete_state (s : State) (phase : RuntimeShutdownPhase) (errors : List CloseError) :
    (s.complete phase errors).runtimeShutdownState =
      if errors.isEmpty then phase :: s.runtimeShutdownState else s.runtimeShutdownState := by
  unfold State.complete
  split <;> rfl

theorem mem_complete {phase' : RuntimeShutdownPhase} {errors : List CloseError} :
    phase' ∈ (s.complete phase errors).runtimeShutdownState ↔
      (errors = [] ∧ phase' = phase) ∨ phase' ∈ s.runtimeShutdownState := by
  rw [complete_state]
  cases errors <;> simp

theorem complete_eq (s : State) (phase : RuntimeShutdownPhase) (errors : List CloseError) :
    s.complete phase errors =
      { s with runtimeShutdownState := (s.complete phase errors).runtimeShutdownState } := by
  unfold State.complete
  split <;> rfl

theorem Standing.complete (standing : Standing s) (phase : RuntimeShutdownPhase) (errors : List CloseError) :
    Standing (s.complete phase errors) := by
  have grows : ∀ p, p ∈ s.runtimeShutdownState → p ∈ (s.complete phase errors).runtimeShutdownState :=
    fun p hp => mem_complete.mpr (.inr hp)
  rw [complete_eq]
  exact ⟨standing.attempts, standing.apart, fun p hp => grows p (standing.completed p hp),
    standing.microservices, standing.microservicesClosed,
    fun closed => ⟨fun p hp => grows p ((standing.closed closed).1 p hp), (standing.closed closed).2⟩,
    standing.fulfilled⟩

theorem Resources.attempt {errors : List CloseError} (h : Resources s c k) (hk : phases[k]? = some phase)
    (due : phase ∉ s.runtimeShutdownState)
    (cleanups : phase = .runtimeCleanup → c.record.displaced = false → c.record.called = c.record.registered) :
    Resources (s.complete phase errors) (c.attempt phase errors) (k + 1) := by
  have notBefore : phase ∉ c.record.before := fun before => due ((h.completed phase).mpr (.inl before))
  have completed : ∀ p, p ∈ (s.complete phase errors).runtimeShutdownState ↔
      p ∈ c.record.before ∨ (p, true) ∈ (c.attempt phase errors).record.attempted := by
    intro p
    rw [mem_complete, h.completed]
    cases errors <;> simp [Closing.attempt]
    grind
  rw [complete_eq]
  refine ⟨⟨h.closed, h.started, ?_, fun p => by rw [← complete_eq]; exact completed p, ?_, ?_, h.earlier⟩, h.microservices⟩
  · rw [List.take_add_one, hk, List.filter_append]
    change _ = (phases.take k).filter (· ∉ c.record.before) ++ _
    rw [← h.attempted]
    simp [Closing.attempt, notBefore]
  · intro none p
    obtain ⟨noResource, rfl⟩ : c.resourceErrors = [] ∧ errors = [] := by simpa [Closing.attempt] using none
    simpa [Closing.attempt] using h.failed noResource p
  · intro attempted displaced
    by_cases this : phase = .runtimeCleanup
    · exact cleanups this displaced
    · refine h.cleanups ?_ displaced
      simpa [Closing.attempt, this, Ne.symm this] using attempted

theorem Through.cleanup_not_attempted (h : Through s c 1) :
    .runtimeCleanup ∉ c.record.attempted.map Prod.fst := by
  rw [h.attempted]
  simp [phases]

theorem Resources.loopEnds (h : Resources s c 1) (registered : List Nat) :
    Resources s (c.loopEnds registered) 1 :=
  ⟨{ h.toThrough with cleanups := fun attempted => absurd attempted h.toThrough.cleanup_not_attempted }, h.microservices⟩

theorem Resources.call (h : Resources s c 1) (cleanup : Nat) : Resources s (c.call cleanup) 1 :=
  ⟨{ h.toThrough with cleanups := fun attempted => absurd attempted h.toThrough.cleanup_not_attempted }, h.microservices⟩

/-! ## The end of an attempt -/

theorem completedBy_cons {a : Attempt × Option CloseError} {earlier : List (Attempt × Option CloseError)}
    {phase : RuntimeShutdownPhase} :
    CompletedBy (a :: earlier) phase ↔ (phase, true) ∈ a.1.attempted ∨ CompletedBy earlier phase := by
  simp [CompletedBy]

theorem Standing.settle (standing : Standing s) {error : Option CloseError} (sound : c.record.Sound s.attempts)
    (earlier : ∀ p, p ∈ c.record.before ↔ CompletedBy s.attempts p)
    (attempted : ∀ p ∈ c.record.attempted.map Prod.fst, p ∉ c.record.before)
    (completed : ∀ p, p ∈ s.runtimeShutdownState ↔ p ∈ c.record.before ∨ (p, true) ∈ c.record.attempted)
    (fulfilled : error = none → s.closed = true ∧ s.signalCleanupErrors = []) : Inv (s.settle c error) where
  attempts := ⟨sound, standing.attempts⟩
  apart := .cons (fun a ha p done again => attempted p again ((earlier p).mpr ⟨a, ha, done⟩)) standing.apart
  completed p done := by
    rcases completedBy_cons.mp done with now | before
    · exact (completed p).mpr (.inr now)
    · exact standing.completed p before
  microservices := standing.microservices
  microservicesClosed := standing.microservicesClosed
  closed := standing.closed
  fulfilled := by
    intro answer mem none
    rcases List.mem_append.mp mem with now | before
    · obtain ⟨caller, _, rfl⟩ := List.mem_map.mp now
      exact fulfilled none
    · exact standing.fulfilled answer before none
  attempt := by cases error <;> simp [State.settle]
  waiting _ := rfl
  promise := by
    cases error with
    | none => exact fun _ => (fulfilled rfl).1
    | some error => simp [State.settle]
  idle _ p done := by
    refine completedBy_cons.mpr ?_
    rcases (completed p).mp done with before | now
    · exact .inr ((earlier p).mp before)
    · exact .inl now

theorem closedOutcome_eq_none (s : State) : s.closedOutcome = none ↔ s.signalCleanupErrors = [] := by
  unfold State.closedOutcome
  cases s.signalCleanupErrors <;> simp

theorem Standing.finish (standing : Standing s) (sound : c.record.Sound s.attempts)
    (earlier : ∀ p, p ∈ c.record.before ↔ CompletedBy s.attempts p)
    (attempted : ∀ p ∈ c.record.attempted.map Prod.fst, p ∉ c.record.before)
    (completed : ∀ p, p ∈ s.runtimeShutdownState ↔ p ∈ c.record.before ∨ (p, true) ∈ c.record.attempted)
    (down : c.errors = [] → c.resourceErrors = [] → s.Finished) : Inv (s.finish c) := by
  unfold State.finish
  dsimp only
  split
  next none =>
    obtain ⟨none, noResource⟩ : c.errors = [] ∧ c.resourceErrors = [] := by
      simpa [thrownBy_eq_nil] using none
    have standing' : Standing { s with closed := true } :=
      { standing with
        closed := fun _ => down none noResource
        fulfilled := fun answer mem fulfilled => ⟨rfl, (standing.fulfilled answer mem fulfilled).2⟩ }
    exact standing'.settle sound earlier attempted completed fun fulfilled =>
      ⟨rfl, (closedOutcome_eq_none s).mp fulfilled⟩
  next => exact standing.settle sound earlier attempted completed fun fulfilled => nomatch fulfilled

/-- An attempt that has come through all phases ends well or badly. -/
theorem Resources.finish (h : Resources s c 5) (standing : Standing s) : Inv (s.finish c) := by
  have order : c.record.attempted.map Prod.fst = phases.filter (· ∉ c.record.before) := h.attempted
  have due : phases.filter (· ∉ c.record.before) = phases.filter (¬ CompletedBy s.attempts ·) :=
    List.filter_congr fun p _ => decide_eq_decide.mpr (not_congr (h.earlier p))
  refine standing.finish ⟨.inl (order.trans due), h.cleanups⟩ h.earlier ?_ h.completed ?_
  · intro p attempted
    rw [order] at attempted
    simpa using (List.mem_filter.mp attempted).2
  · intro none noResource
    refine ⟨fun p _ => (h.completed p).mpr ?_, h.microservices none⟩
    by_cases before : p ∈ c.record.before
    · exact .inl before
    · have attempted : p ∈ c.record.attempted.map Prod.fst := by
        rw [order]
        simp [before, phase_mem]
      obtain ⟨⟨_, ok⟩, mem, rfl⟩ := List.mem_map.mp attempted
      cases ok with
      | true => exact .inr mem
      | false => exact absurd mem (h.failed noResource _)

end

/-! ## Steps keep it -/

section

variable {instances : List LifecycleInstance} {s : State} {c : Closing}

theorem Proceeds.inv {t : State} {k : Nat} (h : Proceeds instances k s c t) (standing : Standing s)
    (resources : Resources s c k) (fresh : k ≤ 1 → c.record.called = []) : Inv t := by
  induction h with
  | skip hk done rest ih => exact ih standing (resources.skip hk done) fun hk => fresh (by omega)
  | readiness due => exact standing.await ⟨resources, fresh (by omega), due⟩
  | cleanup due first =>
    refine standing.await ⟨resources.call _, due, fun _ => ⟨(List.getElem?_eq_some_iff.mp first).1, ?_⟩⟩
    have called := fresh (by omega)
    rw [List.take_add_one, first]
    simp [Closing.call, called]
  | noCleanup due none rest ih =>
    refine ih (standing.complete ..) ((resources.loopEnds _).attempt rfl due fun _ _ => ?_) fun hk => by omega
    change _ = State.runtimeCleanup _
    rw [none]
    exact fresh (by omega)
  | hook due calls => exact standing.await ⟨resources, due⟩
  | noHook due none rest ih =>
    exact ih (standing.complete ..) (resources.attempt rfl due nofun) fun hk => by omega
  | adapter due => exact standing.await ⟨resources, due⟩
  | container due => exact standing.await ⟨resources, due⟩
  | finish => exact resources.finish standing

theorem Microservice.close_sound {m : Microservice} (sound : m.Sound) : m.close.Sound := by
  unfold Microservice.close
  split
  next h => exact ⟨by simpa [h] using sound.closed⟩
  next => exact sound

theorem Microservice.close_closed {m : Microservice} (closed : m.closed = true) : m.close.closed = true := by
  unfold Microservice.close
  split <;> exact closed

theorem Microservice.close_started (m : Microservice) : m.close.closingPromise ≠ .undefined := by
  unfold Microservice.close
  split
  next => simp
  next h => exact h

theorem Microservice.step_closing {m m' : Microservice} {e : MicroserviceEvent} (h : m.step e = some m') :
    (m.Sound → m'.Sound) ∧ (m.Sound → m.closed = true → m'.closed = true) ∧
      (m.closingPromise ≠ .undefined → m'.closingPromise ≠ .undefined) ∧
      ∀ error, m.closingPromise = .rejected error → m'.closingPromise = .rejected error := by
  cases e with
  | close =>
    cases h
    refine ⟨close_sound, fun _ => close_closed, fun _ => close_started m, fun error rejected => ?_⟩
    simp [Microservice.close, rejected]
  | listen =>
    cases h
    unfold Microservice.listen
    split <;> exact ⟨fun h => ⟨h.closed⟩, fun _ => id, id, fun _ => id⟩
  | listenSettled error =>
    simp only [Microservice.step, Option.ite_none_right_eq_some, Option.some.injEq] at h
    obtain ⟨_, rfl⟩ := h
    exact ⟨fun h => ⟨h.closed⟩, fun _ => id, id, fun _ => id⟩
  | marked error =>
    simp only [Microservice.step] at h
    split at h
    next pending =>
      cases error <;> cases h <;>
        exact ⟨fun h => ⟨by simpa [reject, pending] using h.closed⟩, fun _ => id, fun _ undone => (by cases undone), by simp [pending]⟩
    next => cases h
  | listenAwaited =>
    simp only [Microservice.step] at h
    split at h
    next pending =>
      split at h
      next => cases h
      next =>
        cases h
        exact ⟨fun h => ⟨by simpa [pending] using h.closed⟩, fun _ => id, fun _ undone => (by cases undone), by simp [pending]⟩
    next => cases h
  | runtimeClosed error =>
    simp only [Microservice.step] at h
    split at h
    next pending =>
      cases error with
      | some value =>
        cases h
        exact ⟨fun h => ⟨by simpa [reject, pending] using h.closed⟩, fun _ => id, fun _ undone => (by cases undone), by simp [pending]⟩
      | none =>
        cases h
        exact ⟨fun _ => ⟨by simp⟩, fun _ _ => rfl, fun _ undone => (by cases undone), by simp [pending]⟩
    next => cases h

theorem mem_modify {m : Microservice} {l : List Microservice} {index : Nat} {f : Microservice → Microservice}
    (h : m ∈ l.modify index f) : m ∈ l ∨ ∃ m' ∈ l, m = f m' := by
  obtain ⟨i, h⟩ := List.mem_iff_getElem?.mp h
  rw [List.getElem?_modify] at h
  obtain ⟨m', here, rfl⟩ := Option.map_eq_some_iff.mp h
  have mem := List.mem_of_getElem? here
  by_cases this : index = i
  · exact .inr ⟨m', mem, by simp [this]⟩
  · exact .inl (by simpa [this] using mem)

theorem Standing.withMicroservices (standing : Standing s) {ms : List Microservice}
    (sound : ∀ m ∈ ms, m.Sound) (closed : s.connectedMicroservicesClosed = true → ∀ m ∈ ms, m.closed = true) :
    Standing { s with connectedMicroservices := ms } where
  attempts := standing.attempts
  apart := standing.apart
  completed := standing.completed
  microservices := sound
  microservicesClosed done := ⟨(standing.microservicesClosed done).1, closed done⟩
  closed := standing.closed
  fulfilled := standing.fulfilled

theorem microservicesNext_inv {errors : List CloseError} {rest : List Nat} (standing : Standing s) (fresh : Fresh s c)
    (bound : ∀ i ∈ rest, i < s.connectedMicroservices.length)
    (others : errors = [] → ∀ i m, s.connectedMicroservices[i]? = some m → i ∉ rest → m.closed = true) :
    Inv (s.microservicesNext instances c errors rest) := by
  have through := fresh.toThrough
  cases rest with
  | nil =>
    rw [State.microservicesNext]
    split
    next none =>
      have all : ∀ m ∈ s.connectedMicroservices, m.closed = true := by
        intro m mem
        obtain ⟨i, here⟩ := List.mem_iff_getElem?.mp mem
        exact others (by simpa using none) i m here List.not_mem_nil
      have standing' : Standing { s with connectedMicroservicesClosed := true } :=
        { standing with
          microservicesClosed := fun _ => ⟨fresh.started, all⟩
          closed := fun closed => ⟨(standing.closed closed).1, rfl⟩ }
      exact (closeRuntimeResources_proceeds instances _ c).inv standing' ⟨{ through with }, fun _ => rfl⟩ fun _ => fresh.called
    next some =>
      refine (closeRuntimeResources_proceeds instances s _).inv standing ⟨{ through with }, fun none => ?_⟩ fun _ => fresh.called
      simp [thrownBy_eq_nil] at none some
      exact absurd none.2 some
  | cons index rest =>
    have sound : ∀ m ∈ s.connectedMicroservices.modify index Microservice.close, m.Sound := by
      intro m mem
      rcases mem_modify mem with same | ⟨m', before, rfl⟩
      · exact standing.microservices m same
      · exact Microservice.close_sound (standing.microservices m' before)
    have closed : s.connectedMicroservicesClosed = true →
        ∀ m ∈ s.connectedMicroservices.modify index Microservice.close, m.closed = true := by
      intro done m mem
      have all := (standing.microservicesClosed done).2
      rcases mem_modify mem with same | ⟨m', before, rfl⟩
      · exact all m same
      · exact Microservice.close_closed (all m' before)
    refine (standing.withMicroservices sound closed).await ⟨{ fresh with }, ?_, ?_, ?_⟩
    · have here := List.getElem?_eq_getElem (bound index List.mem_cons_self)
      exact ⟨_, by rw [List.getElem?_modify, here]; rfl, by simpa using Microservice.close_started _⟩
    · intro i mem
      rw [List.length_modify]
      exact bound i (List.mem_cons_of_mem _ mem)
    · intro none i m here different later
      rw [List.getElem?_modify_ne _ _ (Ne.symm different)] at here
      exact others none i m here (by simp [different, later])

theorem closeConnectedMicroservices_inv (standing : Standing s) (fresh : Fresh s c) :
    Inv (s.closeConnectedMicroservices instances c) := by
  unfold State.closeConnectedMicroservices
  split
  next done =>
    exact (closeRuntimeResources_proceeds instances s c).inv standing ⟨fresh.toThrough, fun _ => done⟩ fun _ => fresh.called
  next =>
    refine microservicesNext_inv standing fresh (by simp) fun _ i m here notIn => ?_
    have bound := (List.getElem?_eq_some_iff.mp here).1
    exact absurd bound (by simpa using notIn)

theorem unregister_inv (standing : Standing s) (fresh : Fresh s c) : Inv (s.unregister instances c) := by
  unfold State.unregister
  split
  · exact standing.await (a := .unregisterShutdownSignals) fresh
  · exact closeConnectedMicroservices_inv standing fresh

theorem startClosing_inv (standing : Standing s) (opened : s.closed = false)
    (idle : ∀ phase ∈ s.runtimeShutdownState, CompletedBy s.attempts phase) : Inv (s.startClosing instances) := by
  have standing' : Standing { s with closeStarted := true } :=
    { standing with microservicesClosed := fun done => ⟨rfl, (standing.microservicesClosed done).2⟩ }
  have fresh : Fresh { s with closeStarted := true } ⟨.begin s.runtimeShutdownState, [], []⟩ :=
    { closed := opened
      started := rfl
      attempted := rfl
      completed := by simp [Attempt.begin]
      failed := by simp [Attempt.begin]
      cleanups := by simp [Attempt.begin]
      earlier := fun p => ⟨idle p, standing.completed p⟩
      called := rfl
      errors := rfl }
  unfold State.startClosing
  dsimp only
  split
  · exact standing'.await (a := .listen) fresh
  · exact unregister_inv standing' fresh

theorem cleanupNext_inv {errors : List CloseError} {next : Nat} (standing : Standing s) (resources : Resources s c 1)
    (due : .runtimeCleanup ∉ s.runtimeShutdownState)
    (called : c.record.displaced = false → next ≤ s.runtimeCleanup.length ∧
      c.record.called = s.runtimeCleanup.take next) : Inv (s.cleanupNext instances c errors next) := by
  unfold State.cleanupNext
  split
  next cleanup here =>
    refine standing.await ⟨resources.call cleanup, due, fun undisturbed => ?_⟩
    refine ⟨(List.getElem?_eq_some_iff.mp here).1, ?_⟩
    rw [List.take_add_one, here, ← (called undisturbed).2]
    rfl
  next none =>
    refine (runShutdownHooks_proceeds ..).inv (standing.complete ..) ?_ fun hk => by omega
    refine (resources.loopEnds _).attempt rfl due fun _ undisturbed => ?_
    have all : s.runtimeCleanup.length ≤ next := by simpa using none
    change c.record.called = s.runtimeCleanup
    rw [(called undisturbed).2, List.take_of_length_le all]

theorem hooksNext_inv {errors : List CloseError} {rest : List HookCall} (standing : Standing s)
    (resources : Resources s c 2) (due : .hooks ∉ s.runtimeShutdownState) : Inv (s.hooksNext c errors rest) := by
  cases rest with
  | cons call rest => exact standing.await ⟨resources, due⟩
  | nil =>
    have same : s.complete .hooks errors = s.complete .hooks (thrownBy errors) := by
      simp only [State.complete, thrownBy_isEmpty]
    rw [State.hooksNext, same]
    exact (closeAdapter_proceeds [] _ _).inv (standing.complete ..) (resources.attempt rfl due nofun)
      fun hk => by omega

/-- An attempt ends at once when the readiness cannot be reset. -/
theorem readinessThrows_inv {value : Nat} (standing : Standing s) (resources : Resources s c 0)
    (due : .readiness ∉ s.runtimeShutdownState) : Inv (s.finish (c.attempt .readiness [.thrown value])) := by
  have notBefore : .readiness ∉ c.record.before := fun before => due ((resources.completed _).mpr (.inl before))
  have none : c.record.attempted = [] := by simpa using resources.attempted
  have undone : ¬ CompletedBy s.attempts .readiness := fun done => notBefore ((resources.earlier _).mpr done)
  refine standing.finish ⟨.inr ⟨undone, by simp [Closing.attempt, none]⟩, ?_⟩ resources.earlier ?_ ?_ ?_
  · simp [Closing.attempt, none]
  · simpa [Closing.attempt, none] using notBefore
  · intro p
    rw [resources.completed]
    simp [Closing.attempt, none]
  · simp [Closing.attempt]

theorem closeStep_inv {a : CloseAwait} {error : Option Nat} {t : State} (standing : Standing s)
    (h : InProgress s c a) (step : s.closeStep instances c error a = some t) : Inv t := by
  cases a with
  | listen | microservice => cases step
  | unregisterShutdownSignals =>
    cases step
    have fresh : Fresh s c := h
    have opened := fresh.closed
    have standing' : Standing (s.unregistered error) :=
      { standing with
        fulfilled := fun answer mem none => by
          rw [(standing.fulfilled answer mem none).1] at opened
          cases opened }
    exact closeConnectedMicroservices_inv standing' (InProgress.frame (a := .listen) h ..)
  | readiness =>
    obtain ⟨resources, called, due⟩ := h
    cases error with
    | some value => cases step; exact readinessThrows_inv standing resources due
    | none =>
      cases step
      exact (runCleanupCallbacks_proceeds instances _ _).inv (standing.complete ..) (resources.attempt rfl due nofun)
        fun _ => called
  | cleanup next errors =>
    cases step
    obtain ⟨resources, due, called⟩ := h
    exact cleanupNext_inv standing resources due called
  | hook rest errors =>
    cases step
    exact hooksNext_inv standing h.1 h.2
  | adapter =>
    cases step
    exact (disposeContainer_proceeds [] _ _).inv (standing.complete ..) (h.1.attempt rfl h.2 nofun)
      fun hk => by omega
  | container =>
    cases step
    exact (h.1.attempt rfl h.2 nofun).finish (standing.complete ..)

theorem Inv.answer (inv : Inv s) {caller : Caller} {error : Option CloseError}
    (fulfilled : error = none → s.closed = true ∧ s.signalCleanupErrors = []) : Inv (s.answer caller error) where
  toStanding :=
    { inv.toStanding with
      fulfilled := fun answer mem none => by
        rcases List.mem_cons.mp mem with rfl | before
        · exact fulfilled none
        · exact inv.fulfilled answer before none }
  attempt c a promise := (inv.attempt c a promise).frame ..
  waiting := inv.waiting
  promise := inv.promise
  idle := inv.idle

theorem close_inv (inv : Inv s) (caller : Caller) : Inv (s.close instances caller) := by
  unfold State.close
  split
  next closed =>
    exact inv.answer fun none => ⟨closed, (closedOutcome_eq_none s).mp none⟩
  next opened =>
    split
    next c a promise =>
      exact ⟨{ inv.toStanding with }, fun c a promise => (inv.attempt c a promise).frame ..,
        fun idle => absurd promise (idle c a), inv.promise, inv.idle⟩
    next promise => exact absurd (inv.promise promise) opened
    next promise => exact inv.answer nofun
    next undefined =>
      exact startClosing_inv { inv.toStanding with } (by simpa using opened) (inv.idle (by simp [undefined]))

theorem unregisterCleanup_inv (inv : Inv s) (cleanup : Nat) : Inv (s.unregisterCleanup cleanup) := by
  have standing : Standing { s with runtimeCleanup := s.runtimeCleanup.erase cleanup } := { inv.toStanding with }
  unfold State.unregisterCleanup
  dsimp only
  split
  next c next errors promise =>
    obtain ⟨resources, due, called⟩ := inv.attempt c _ promise
    have notYet := resources.toThrough.cleanup_not_attempted
    refine standing.await ⟨⟨{ resources.toThrough with cleanups := fun attempted => absurd attempted notYet },
      resources.microservices⟩, due, fun undisturbed => ?_⟩
    obtain ⟨undisplaced, later⟩ : c.record.displaced = false ∧ next ≤ s.runtimeCleanup.idxOf cleanup := by
      simpa [Closing.displace] using undisturbed
    obtain ⟨bound, called⟩ := called undisplaced
    -- What has been called stands before the entry that is removed.
    rw [List.erase_eq_eraseIdx_of_idxOf rfl, List.take_eraseIdx_eq_take_of_le _ _ _ later, List.length_eraseIdx]
    refine ⟨?_, called⟩
    split <;> omega
  next other =>
    refine ⟨standing, fun c a promise => ?_, inv.waiting, inv.promise, inv.idle⟩
    have h := inv.attempt c a promise
    cases a with
    | cleanup next errors => exact absurd promise (other c next errors)
    | listen | unregisterShutdownSignals => exact ⟨{ h.toThrough with }, h.called, h.errors⟩
    | microservice => exact ⟨⟨{ h.1.toThrough with }, h.1.called, h.1.errors⟩, { h.2 with }⟩
    | readiness | hook | adapter | container => exact ⟨⟨{ h.1.toThrough with }, h.1.microservices⟩, h.2⟩

theorem registerCleanup_inv (inv : Inv s) (cleanup : Nat) :
    Inv { s with runtimeCleanup := s.runtimeCleanup ++ [cleanup] } := by
  refine ⟨{ inv.toStanding with }, fun c a promise => ?_, inv.waiting, inv.promise, inv.idle⟩
  have h := inv.attempt c a promise
  cases a with
  | cleanup next errors =>
    obtain ⟨h, due, called⟩ := h
    refine ⟨⟨{ h.toThrough with }, h.microservices⟩, due, fun undisturbed => ?_⟩
    obtain ⟨bound, called⟩ := called undisturbed
    rw [List.take_append_of_le_length bound, List.length_append]
    exact ⟨by omega, called⟩
  | listen | unregisterShutdownSignals => exact ⟨{ h.toThrough with }, h.called, h.errors⟩
  | microservice => exact ⟨⟨{ h.1.toThrough with }, h.1.called, h.1.errors⟩, { h.2 with }⟩
  | readiness | hook | adapter | container => exact ⟨⟨{ h.1.toThrough with }, h.1.microservices⟩, h.2⟩

/-- A microservice goes on, or its `close()` is called by somebody else. -/
theorem microservice_inv {index : Nat} {m m' : Microservice} {e : MicroserviceEvent} (inv : Inv s)
    (here : s.connectedMicroservices[index]? = some m) (step : m.step e = some m') :
    Inv { s with connectedMicroservices := s.connectedMicroservices.set index m' } := by
  obtain ⟨sound, closed, started, -⟩ := Microservice.step_closing step
  have mem := List.mem_of_getElem? here
  have standing : Standing { s with connectedMicroservices := s.connectedMicroservices.set index m' } := by
    refine inv.toStanding.withMicroservices (fun x hx => ?_) fun done x hx => ?_
    · rcases List.mem_or_eq_of_mem_set hx with before | rfl
      · exact inv.microservices x before
      · exact sound (inv.microservices m mem)
    · rcases List.mem_or_eq_of_mem_set hx with before | rfl
      · exact (inv.microservicesClosed done).2 x before
      · exact closed (inv.microservices m mem) ((inv.microservicesClosed done).2 m mem)
  refine ⟨standing, fun c a promise => ?_, inv.waiting, inv.promise, inv.idle⟩
  have h := inv.attempt c a promise
  have bound := (List.getElem?_eq_some_iff.mp here).1
  cases a with
  | listen | unregisterShutdownSignals => exact ⟨{ h.toThrough with }, h.called, h.errors⟩
  | microservice awaited rest errors =>
    obtain ⟨h, ⟨x, atAwaited, hx⟩, inRange, others⟩ := h
    refine ⟨⟨{ h.toThrough with }, h.called, h.errors⟩, ?_, by simpa using inRange, fun none i y hy different later => ?_⟩
    · by_cases this : index = awaited
      · subst this
        obtain rfl : m = x := by rw [here] at atAwaited; exact Option.some.inj atAwaited
        exact ⟨m', by rw [List.getElem?_set_self bound], started hx⟩
      · exact ⟨x, by rw [List.getElem?_set_ne this, atAwaited], hx⟩
    · by_cases this : index = i
      · subst this
        obtain rfl : m' = y := by rw [List.getElem?_set_self bound] at hy; exact Option.some.inj hy
        exact closed (inv.microservices m mem) (others none index m here different later)
      · rw [List.getElem?_set_ne this] at hy
        exact others none i y hy different later
  | cleanup | readiness | hook | adapter | container => exact ⟨⟨{ h.1.toThrough with }, h.1.microservices⟩, h.2⟩

theorem startup_inv (inv : Inv s) (startup : Startup) (signals : Bool) :
    Inv { s with startup := startup, unregisterShutdownSignals := signals } :=
  ⟨{ inv.toStanding with }, fun c a promise => (inv.attempt c a promise).frame .., inv.waiting, inv.promise, inv.idle⟩

theorem step_inv {hasHttpAdapter : Bool} {e : Event} {t : State} (inv : Inv s)
    (h : step hasHttpAdapter instances s e = some t) : Inv t := by
  cases e with
  | listen =>
    cases h
    unfold State.listen
    split
    · exact inv
    · exact startup_inv inv ..
  | started error =>
    simp only [step] at h
    split at h <;> cases h <;> exact startup_inv inv ..
  | shutdownRegistered unregister =>
    simp only [step] at h
    split at h
    next => cases h; exact startup_inv inv ..
    next => cases h
  | startupFailed =>
    simp only [step] at h
    split at h
    next => cases h; exact close_inv (startup_inv inv ..) _
    next => cases h
  | connected =>
    simp only [step] at h
    split at h
    next => cases h
    next opened =>
      cases h
      have standing : Standing { s with connectedMicroservices := s.connectedMicroservices ++ [Microservice.connected] } := by
        refine inv.toStanding.withMicroservices (fun m mem => ?_) fun done =>
          absurd (inv.microservicesClosed done).1 opened
        rcases List.mem_append.mp mem with before | new
        · exact inv.microservices m before
        · obtain rfl : m = .connected := by simpa using new
          exact ⟨by simp [Microservice.connected]⟩
      refine ⟨standing, fun c a promise => ?_, inv.waiting, inv.promise, inv.idle⟩
      -- No attempt has begun.
      have h := inv.attempt c a promise
      refine absurd ?_ opened
      cases a with
      | listen | unregisterShutdownSignals => exact h.started
      | microservice | readiness | cleanup | hook | adapter | container => exact h.1.started
  | registerCleanup cleanup => cases h; exact registerCleanup_inv inv cleanup
  | unregisterCleanup cleanup => cases h; exact unregisterCleanup_inv inv cleanup
  | microservice index event =>
    obtain ⟨m', step, rfl⟩ := Option.map_eq_some_iff.mp h
    obtain ⟨m, here, step⟩ := Option.bind_eq_some_iff.mp step
    exact microservice_inv inv here step
  | close call => cases h; exact close_inv inv _
  | listenAwaited =>
    simp only [step] at h
    split at h
    next => cases h
    next c promise _ => cases h; exact unregister_inv inv.toStanding (inv.attempt c _ promise)
    next => cases h
  | microserviceAwaited =>
    simp only [step] at h
    split at h
    next c index rest errors promise =>
      obtain ⟨fresh, loop⟩ := inv.attempt c _ promise
      split at h
      next settled =>
        cases h
        obtain ⟨m, here, fulfilled⟩ := Option.map_eq_some_iff.mp settled
        have closed := ((inv.microservices m (List.mem_of_getElem? here)).closed).mpr fulfilled
        refine microservicesNext_inv inv.toStanding fresh loop.bound fun none i x hx notIn => ?_
        by_cases this : i = index
        · subst this
          obtain rfl : m = x := by rw [here] at hx; exact Option.some.inj hx
          exact closed
        · exact loop.others none i x hx this notIn
      next error settled =>
        cases h
        exact microservicesNext_inv inv.toStanding fresh loop.bound fun none => absurd none (by simp)
      next => cases h
    next => cases h
  | closeStep error =>
    simp only [step] at h
    split at h
    next c a promise => exact closeStep_inv inv.toStanding (inv.attempt c a promise) h
    next => cases h
  | reset =>
    simp only [step] at h
    split at h
    next promise =>
      cases h
      exact ⟨{ inv.toStanding with }, nofun, fun _ => inv.waiting (by simp [promise]), nofun,
        fun _ => inv.idle (by simp [promise])⟩
    next => cases h

theorem run_inv {hasHttpAdapter : Bool} {cleanups : List Nat} {es : List Event} {t : State}
    (run : Run.run (step hasHttpAdapter instances) (.bootstrapped cleanups) es = some t) : Inv t :=
  Run.keeps (fun _ _ _ => step_inv) (Inv.initial cleanups) run

end

end Fluo.Runtime.Application
